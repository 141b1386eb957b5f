import NnsVerified.Kernel.NamesTest
import NnsVerified.Kernel.Proofs.GateProofs

/-!
# The settlement gate against a committed registry

A batch that the gate accepts consists of rows of the list that the root commits to, and each batch
of such rows with their proofs is accepted, if its names are valid and distinct and its transaction
hashes are distinct. The root commits to the rows, but not to how often the last one is listed. The
gate under test admits repetitions, which the gate of the kernel does not.
-/

namespace NnsVerified.Kernel

open NnsVerified.Hoon NnsVerified.Library

variable {Acc Vesl : Type} {env : Env Acc Vesl} {merkle : VeslMerkle}

/-! ## Rows -/

/-- A row of the registry, as the gate reads it: name, owner and transaction hash. -/
abbrev GateRow := Nat × Nat × Nat

/-- The chunk of a row. -/
def rowChunk (env : Env Acc Vesl) (row : GateRow) : Nat :=
  env.jam (Noun.tuple (.atom row.1) [.atom row.2.1, .atom row.2.2])

/-- A leaf without its path. -/
def GateLeaf.row (l : GateLeaf) : GateRow := (l.name, l.owner, l.txHash)

/-- The root of a list of rows. -/
def registryRoot (env : Env Acc Vesl) (merkle : VeslMerkle) (rows : List GateRow) : Nat :=
  NamesTest.computeRoot merkle (rows.map (rowChunk env))

/-- All calls of the hash for the root of a list of rows. -/
def registryCalls (env : Env Acc Vesl) (merkle : VeslMerkle) (rows : List GateRow) :
    List (HashCall Nat Nat) :=
  merkle.treeCalls (rows.map (rowChunk env))

theorem jam_injective (hjam : env.JamLaws) : Function.Injective env.jam := by
  intro n m h
  have hcue := hjam n
  rw [h, hjam m] at hcue
  exact (Except.ok.inj hcue).symm

theorem rowChunk_injective (hjam : env.JamLaws) : Function.Injective (rowChunk env) := by
  rintro ⟨name, owner, tx⟩ ⟨name', owner', tx'⟩ h
  have hnoun := jam_injective hjam h
  simp only [Noun.tuple] at hnoun
  simp_all

theorem registryRoot_eq (env : Env Acc Vesl) (merkle : VeslMerkle) {rows : List GateRow}
    (hne : rows ≠ []) :
    merkle.root ((rows.map (rowChunk env)).map merkle.leaf)
      = some (registryRoot env merkle rows) := by
  obtain ⟨row, rest, rfl⟩ := List.exists_cons_of_ne_nil hne
  have hat : (((row :: rest).map (rowChunk env)).map merkle.leaf)[0]?
      = some (merkle.leaf (rowChunk env row)) := rfl
  obtain ⟨p, -, hroot, -⟩ := MerkleHash.climb_path (H := merkle) (L := Nat) hat
  unfold registryRoot NamesTest.computeRoot
  rw [hroot]
  rfl

/-- Each row has a proof, which leads from the hash of its chunk to the root. -/
theorem proofFor_row (env : Env Acc Vesl) (merkle : VeslMerkle) {rows : List GateRow} {i : Nat}
    {row : GateRow} (hi : rows[i]? = some row) :
    ∃ proof, NamesTest.proofFor merkle (rows.map (rowChunk env)) i = .ok proof ∧
      merkle.climb (merkle.leaf (rowChunk env row)) proof = registryRoot env merkle rows := by
  have hat : ((rows.map (rowChunk env)).map merkle.leaf)[i]?
      = some (merkle.leaf (rowChunk env row)) := by
    rw [List.getElem?_map, List.getElem?_map, hi]
    rfl
  have hne : rows ≠ [] := by
    rintro rfl
    simp at hi
  obtain ⟨proof, hproof, hroot, -⟩ := MerkleHash.climb_path (H := merkle) (L := Nat) hat
  refine ⟨proof, orCrash_eq_ok.mpr hproof, ?_⟩
  rw [registryRoot_eq env merkle hne] at hroot
  exact (Option.some.inj hroot).symm

/-! ## Batches -/

/-- The gate accepts exactly the batches of proved leaves with valid, distinct names and distinct
transaction hashes. -/
theorem nnsGate_eq_true (hmerkle : env.MerkleLaws merkle) (leaves : List GateLeaf) (root : Nat) :
    nnsGate env (batchNoun leaves) root = .ok true ↔
      (∀ l ∈ leaves, isValidName l.name = .ok true ∧
        merkle.climb (merkle.leaf (rowChunk env l.row)) l.proof = root) ∧
      (leaves.map GateLeaf.name).Nodup ∧ (leaves.map GateLeaf.txHash).Nodup := by
  obtain ⟨b, hloop, hb⟩ := nnsGate_loop_spec hmerkle root ∅ ∅ leaves
  rw [nnsGate_batchNoun, hloop, Except.ok.injEq, hb, unseen_empty, unseen_empty]
  unfold LeavesValid
  simp only [decide_eq_true_eq]
  rfl

/-- A batch is accepted against the root of a registry only if its leaves are rows of the registry,
with valid, distinct names and distinct transaction hashes; and every such batch is accepted, with
the proofs that the rows have. -/
theorem nnsGate_committed (hjam : env.JamLaws) (hmerkle : env.MerkleLaws merkle)
    (rows : List GateRow) (hne : rows ≠ []) :
    (∀ leaves : List GateLeaf,
      merkle.CollisionFree (registryCalls env merkle rows ++
        leaves.flatMap fun l => merkle.pathCalls (rowChunk env l.row) l.proof) →
      nnsGate env (batchNoun leaves) (registryRoot env merkle rows) = .ok true →
      (∀ l ∈ leaves, l.row ∈ rows ∧ isValidName l.name = .ok true) ∧
        (leaves.map GateLeaf.name).Nodup ∧ (leaves.map GateLeaf.txHash).Nodup) ∧
    (∀ batch : List GateRow, batch ⊆ rows → (∀ row ∈ batch, isValidName row.1 = .ok true) →
      (batch.map Prod.fst).Nodup → (batch.map fun row => row.2.2).Nodup →
      ∃ leaves : List GateLeaf, leaves.map GateLeaf.row = batch ∧
        (∀ l ∈ leaves, ∃ i, rows[i]? = some l.row ∧
          NamesTest.proofFor merkle (rows.map (rowChunk env)) i = .ok l.proof) ∧
        nnsGate env (batchNoun leaves) (registryRoot env merkle rows) = .ok true) := by
  constructor
  · intro leaves hfree hgate
    obtain ⟨hleaves, hnames, htxs⟩ := (nnsGate_eq_true hmerkle leaves _).mp hgate
    refine ⟨fun l hl => ⟨?_, (hleaves l hl).1⟩, hnames, htxs⟩
    have hchunk := MerkleHash.mem_of_climb (x := rowChunk env l.row) (p := l.proof)
      (hfree.subset (List.append_subset.mpr ⟨List.subset_append_left _ _, fun c hc =>
        List.mem_append_right _ (List.mem_flatMap.mpr ⟨l, hl, hc⟩)⟩))
      ((registryRoot_eq env merkle hne).trans (congrArg some (hleaves l hl).2.symm))
    obtain ⟨row, hrow, heq⟩ := List.mem_map.mp hchunk
    exact rowChunk_injective hjam heq ▸ hrow
  · intro batch hsub hvalid hnames htxs
    have hleaf : ∀ row ∈ batch, ∃ l : GateLeaf, l.row = row ∧ (∃ i, rows[i]? = some l.row ∧
        NamesTest.proofFor merkle (rows.map (rowChunk env)) i = .ok l.proof) ∧
        merkle.climb (merkle.leaf (rowChunk env l.row)) l.proof = registryRoot env merkle rows := by
      intro row hrow
      obtain ⟨i, hi⟩ := List.getElem?_of_mem (hsub hrow)
      obtain ⟨proof, hproof, hclimb⟩ := proofFor_row env merkle hi
      exact ⟨⟨row.1, row.2.1, row.2.2, proof⟩, rfl, ⟨i, hi, hproof⟩, hclimb⟩
    have : Nonempty GateLeaf := ⟨⟨0, 0, 0, []⟩⟩
    choose! leafOf hrowOf hproofOf hclimbOf using hleaf
    have hrows : (batch.map leafOf).map GateLeaf.row = batch := by
      rw [List.map_map]
      exact (List.map_congr_left fun row hrow => hrowOf row hrow).trans (List.map_id _)
    refine ⟨batch.map leafOf, hrows, ?_, (nnsGate_eq_true hmerkle _ _).mpr ⟨?_, ?_, ?_⟩⟩
    · intro l hl
      obtain ⟨row, hrow, rfl⟩ := List.mem_map.mp hl
      exact hproofOf row hrow
    · intro l hl
      obtain ⟨row, hrow, rfl⟩ := List.mem_map.mp hl
      refine ⟨?_, hclimbOf row hrow⟩
      have hname : (leafOf row).name = row.1 := congrArg Prod.fst (hrowOf row hrow)
      rw [hname]
      exact hvalid row hrow
    · rw [← hrows, List.map_map] at hnames
      exact hnames
    · rw [← hrows, List.map_map] at htxs
      exact htxs

/-! ## What the root commits to -/

/-- Rows with one root are the same rows, and in the same order if there are as many of them; but a
list of odd length has the root of the list with its last row repeated. -/
theorem registryRoot_binds (hjam : env.JamLaws) :
    (∀ rows rows' : List GateRow, rows ≠ [] → rows' ≠ [] →
      merkle.CollisionFree (registryCalls env merkle rows ++ registryCalls env merkle rows') →
      registryRoot env merkle rows = registryRoot env merkle rows' →
      (∀ row, row ∈ rows ↔ row ∈ rows') ∧ (rows.length = rows'.length → rows = rows')) ∧
    (∀ (rows : List GateRow) (last : GateRow), rows ≠ [] → rows.length % 2 = 0 →
      registryRoot env merkle (rows ++ [last, last]) = registryRoot env merkle (rows ++ [last])) := by
  constructor
  · intro rows rows' hne hne' hfree hroot
    have heq := (registryRoot_eq env merkle hne).trans
      ((congrArg some hroot).trans (registryRoot_eq env merkle hne').symm)
    refine ⟨fun row => ?_, fun hlen => ?_⟩
    · have hinj := rowChunk_injective hjam
      rw [← List.mem_map_of_injective hinj, MerkleHash.mem_iff_of_root_eq hfree heq,
        List.mem_map_of_injective hinj]
    · exact List.map_injective_iff.mpr (rowChunk_injective hjam)
        (MerkleHash.eq_of_root_eq (by simpa using hlen) hfree heq)
  · intro rows last hne heven
    unfold registryRoot NamesTest.computeRoot
    simp only [List.map_append, List.map_cons, List.map_nil]
    rw [MerkleHash.root_repeat _ (by simpa using heven) (by simpa using hne)]

/-! ## The gate under test -/

section

variable {verifies : Nat → List (Nat × Bool) → Nat → Bool}
  (hverify : ∀ chunk proof root, env.verifyChunk chunk proof root = .ok (verifies chunk proof root))

include hverify

/-- The gate under test answers on every batch, `%.y` where each leaf by itself is valid. -/
theorem namesTest_loop_spec (expectedRoot : Nat) (leaves : List GateLeaf) :
    ∃ b, NamesTest.nnsGate.loop env expectedRoot leaves = .ok b ∧
      (b = true ↔ LeavesValid env verifies expectedRoot leaves) := by
  induction leaves with
  | nil => exact ⟨true, rfl, by simp [LeavesValid]⟩
  | cons l t ih =>
    obtain ⟨b, hloop, hb⟩ := ih
    unfold LeavesValid at hb ⊢
    rw [List.forall_mem_cons, ← hb, isValidName_true, NamesTest.nnsGate.loop, isValidName_eq,
      hverify, ok_bind, ok_bind, hloop, ← GateLeaf.chunk]
    by_cases hname : ValidName l.name
    · by_cases hproof : verifies (l.chunk env) l.proof expectedRoot = true
      · exact ⟨b, by simp [hname, hproof], by simp [hname, hproof]⟩
      · exact ⟨false, by simp [hname, hproof], by simp [hproof]⟩
    · exact ⟨false, by simp [hname], by simp [hname]⟩

/-- On every noun the gate of the kernel answers as the gate under test does, but that it rejects
batches in which a name or a transaction hash is repeated. -/
theorem nnsGate_stricter (data : Noun) (expectedRoot : Nat) :
    nnsGate env data expectedRoot = (do
      let leaves ← orCrash (clamList clamGateLeaf data)
      let b ← NamesTest.nnsGate env data expectedRoot
      pure (b && decide ((leaves.map GateLeaf.name).Nodup ∧
        (leaves.map GateLeaf.txHash).Nodup))) := by
  unfold nnsGate NamesTest.nnsGate
  cases clamList clamGateLeaf data with
  | none => rfl
  | some leaves =>
    obtain ⟨b, hloop, hb⟩ := nnsGate_loop_spec hverify expectedRoot ∅ ∅ leaves
    obtain ⟨b', hloop', hb'⟩ := namesTest_loop_spec hverify expectedRoot leaves
    rw [unseen_empty, unseen_empty, ← hb'] at hb
    simp only [orCrash, ok_bind, hloop, hloop', pure_eq_ok]
    refine congrArg Except.ok (Bool.eq_iff_iff.mpr ?_)
    rw [hb, Bool.and_eq_true, decide_eq_true_eq]

end

/-! ## A tree of three rows -/

/-- A hash that never collides. -/
def pairingMerkle : VeslMerkle := ⟨fun x => 2 * x, fun a b => 2 * Nat.pair a b + 1⟩

theorem pairingMerkle_collisionFree (calls : List (HashCall Nat Nat)) :
    pairingMerkle.CollisionFree calls := by
  rintro (x | ⟨a, b⟩) - (y | ⟨c, d⟩) - h <;> simp only [MerkleHash.value, pairingMerkle] at h
  · rw [show x = y by omega]
  · omega
  · omega
  · obtain ⟨rfl, rfl⟩ := Nat.pair_eq_pair.mp (show Nat.pair a b = Nat.pair c d by omega)
    rfl

/-- The sample kernel with the tree of pairings as the verifier of paths. -/
def pairingEnv : Env (List (NnsNameKey × NnsAccumulatorEntry)) Unit :=
  { sampleEnv with
    verifyChunk := fun chunk proof root =>
      .ok (decide (pairingMerkle.climb (pairingMerkle.leaf chunk) proof = root)) }

/-- Three rows, two of one owner. -/
def threeRows : List GateRow := [(cord "a.nock", 1, 20), (cord "b.nock", 2, 21), (cord "c.nock", 1, 22)]

theorem nnsGate_committed_three :
    (∃ leaves : List GateLeaf,
      leaves.map GateLeaf.row = [(cord "c.nock", 1, 22), (cord "a.nock", 1, 20)] ∧
      nnsGate pairingEnv (batchNoun leaves) (registryRoot pairingEnv pairingMerkle threeRows)
        = .ok true) ∧
    ∀ l : GateLeaf, nnsGate pairingEnv (batchNoun [l])
      (registryRoot pairingEnv pairingMerkle threeRows) = .ok true → l.row ∈ threeRows := by
  obtain ⟨hsound, hcomplete⟩ := @nnsGate_committed _ _ pairingEnv pairingMerkle
    sampleEnv_jamLaws (fun _ _ _ => rfl) threeRows (by decide)
  refine ⟨?_, fun l hl => ?_⟩
  · obtain ⟨leaves, hrows, -, hgate⟩ := hcomplete [(cord "c.nock", 1, 22), (cord "a.nock", 1, 20)]
      (by decide) (by decide) (by decide) (by decide)
    exact ⟨leaves, hrows, hgate⟩
  · exact ((hsound [l] (pairingMerkle_collisionFree _) hl).1 l (List.mem_singleton_self l)).1

theorem registryRoot_binds_three :
    (∀ rows : List GateRow, rows.length = 3 →
      registryRoot pairingEnv pairingMerkle rows = registryRoot pairingEnv pairingMerkle threeRows →
      rows = threeRows) ∧
    registryRoot pairingEnv pairingMerkle (threeRows ++ [(cord "c.nock", 1, 22)])
      = registryRoot pairingEnv pairingMerkle threeRows := by
  obtain ⟨hbinds, hrepeat⟩ := @registryRoot_binds _ _ pairingEnv pairingMerkle sampleEnv_jamLaws
  refine ⟨fun rows hlen hroot => ?_, ?_⟩
  · have hne : rows ≠ [] := by
      rintro rfl
      cases hlen
    exact (hbinds rows threeRows hne (by decide) (pairingMerkle_collisionFree _) hroot).2 hlen
  · exact hrepeat [(cord "a.nock", 1, 20), (cord "b.nock", 2, 21)] (cord "c.nock", 1, 22)
      (by decide) rfl

/-- A batch that lists one row twice. -/
theorem nnsGate_stricter_twice : ∃ l : GateLeaf, l.row = (cord "a.nock", 1, 20) ∧
    NamesTest.nnsGate pairingEnv (batchNoun [l, l])
      (registryRoot pairingEnv pairingMerkle threeRows) = .ok true ∧
    nnsGate pairingEnv (batchNoun [l, l]) (registryRoot pairingEnv pairingMerkle threeRows)
      = .ok false := by
  have hat : threeRows[0]? = some (cord "a.nock", 1, 20) := rfl
  obtain ⟨proof, -, hclimb⟩ := proofFor_row pairingEnv pairingMerkle hat
  have hverify : ∀ chunk proof root, pairingEnv.verifyChunk chunk proof root =
      .ok (decide (pairingMerkle.climb (pairingMerkle.leaf chunk) proof = root)) := fun _ _ _ => rfl
  obtain ⟨l, hl⟩ : ∃ l : GateLeaf, l = ⟨cord "a.nock", 1, 20, proof⟩ := ⟨_, rfl⟩
  have hrow : l.row = (cord "a.nock", 1, 20) := by rw [hl]; rfl
  have hclam : clamList clamGateLeaf (batchNoun [l, l]) = some [l, l] :=
    clamList_map clamGateLeaf_noun [l, l]
  have htest : NamesTest.nnsGate pairingEnv (batchNoun [l, l])
      (registryRoot pairingEnv pairingMerkle threeRows) = .ok true := by
    obtain ⟨b, hloop, hb⟩ := namesTest_loop_spec hverify
      (registryRoot pairingEnv pairingMerkle threeRows) [l, l]
    have hvalid : LeavesValid pairingEnv (fun chunk proof root =>
        decide (pairingMerkle.climb (pairingMerkle.leaf chunk) proof = root))
        (registryRoot pairingEnv pairingMerkle threeRows) [l, l] := by
      intro l' hl'
      obtain rfl : l' = l := by simpa using hl'
      have hname : isValidName l'.name = .ok true := by
        rw [show l'.name = cord "a.nock" from congrArg Prod.fst hrow]
        decide
      refine ⟨hname, decide_eq_true ?_⟩
      rw [← hclimb, ← hrow, hl]
      rfl
    rw [NamesTest.nnsGate, hclam, orCrash, ok_bind, hloop, hb.mpr hvalid]
  refine ⟨l, hrow, htest, ?_⟩
  rw [nnsGate_stricter hverify, hclam, orCrash, ok_bind, htest, ok_bind, pure_eq_ok]
  simp

end NnsVerified.Kernel
