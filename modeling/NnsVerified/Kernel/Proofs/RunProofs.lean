import NnsVerified.Kernel.Proofs.PokeProofs

/-!
# Runs of the kernel and the blocks that they accepted

`RunInv` relates the state of a run to the blocks that it accepted: the blocks are numbered from the
genesis height and linked, the cursor is at the last of them, and the accumulator is the scan of all
of them. Every poke keeps it.
-/

namespace NnsVerified.Kernel

open NnsVerified.Hoon NnsVerified.Library

variable {Acc Vesl : Type} {env : Env Acc Vesl} {s t : State Acc Vesl} {bs : List ScanBlock}

theorem runState_snoc (before : List Noun) (input : Noun) :
    runState env (before ++ [input]) = nextState env (runState env before) input :=
  final_append (step env) (fresh env) before [input]

/-- The scan of a list of blocks into a given accumulator. -/
def scanFrom (env : Env Acc Vesl) (acc : Acc) (bs : List ScanBlock) : Eval Acc :=
  bs.foldlM (fun acc b => claimScanner env acc b.page b.height b.claims) acc

/-- The accumulator that a list of blocks makes: the reserved row, then the scan of the blocks. -/
def scanAll (env : Env Acc Vesl) (bs : List ScanBlock) : Eval Acc := do
  let seeded ← ensureGenesisTld env env.zBy.nul
  scanFrom env seeded bs

/-- Blocks numbered from the genesis height, each linked to the one before it. -/
structure Linked (bs : List ScanBlock) : Prop where
  heights : ∀ (i : Nat) (h : i < bs.length), bs[i].height = nnsGenesisHeight + i
  parents : ∀ (i : Nat) (h : i + 1 < bs.length), bs[i + 1].parent = bs[i].pageDigest

/-- The height of the cursor after a list of accepted blocks. -/
def cursorHeight (bs : List ScanBlock) : Nat :=
  if bs = [] then 0 else nnsGenesisHeight + bs.length - 1

/-- The digest of the cursor after a list of accepted blocks. -/
def cursorDigest (bs : List ScanBlock) : Nat := (bs.getLast?.map ScanBlock.pageDigest).getD 0

/-- The accumulator holds the reserved row. -/
def Seeded (env : Env Acc Vesl) (acc : Acc) : Prop := ensureGenesisTld env acc = .ok acc

/-- The invariant of runs. -/
structure RunInv (env : Env Acc Vesl) (bs : List ScanBlock) (s : State Acc Vesl) : Prop where
  linked : Linked bs
  height : s.lastProvedHeight = cursorHeight bs
  digest : s.lastProvedDigest = cursorDigest bs
  inserted : Inserted env s.accumulator
  start : bs = [] → s.accumulator = env.zBy.nul ∨
    ensureGenesisTld env env.zBy.nul = .ok s.accumulator
  scanned : bs ≠ [] → scanAll env bs = .ok s.accumulator ∧ Seeded env s.accumulator

/-! ## Linked blocks -/

theorem Linked.nil : Linked [] where
  heights i h := absurd h (Nat.not_lt_zero i)
  parents i h := absurd h (Nat.not_lt_zero (i + 1))

theorem Linked.append_singleton {c : ScanBlock} (h : Linked bs)
    (hheight : c.height = nnsGenesisHeight + bs.length)
    (hparent : bs ≠ [] → c.parent = cursorDigest bs) : Linked (bs ++ [c]) where
  heights i hi := by
    rw [List.length_append, List.length_singleton] at hi
    rcases Nat.lt_succ_iff_lt_or_eq.mp hi with hlt | rfl
    · rw [List.getElem_append_left hlt]
      exact h.heights i hlt
    · rw [List.getElem_concat_length rfl]
      exact hheight
  parents i hi := by
    rw [List.length_append, List.length_singleton] at hi
    have hlt : i < bs.length := by omega
    rw [List.getElem_append_left hlt]
    rcases Nat.lt_succ_iff_lt_or_eq.mp hi with hlt' | heq
    · rw [List.getElem_append_left hlt']
      exact h.parents i hlt'
    · have hne : bs ≠ [] := List.ne_nil_of_length_pos (by omega)
      have hlast : bs.getLast? = some bs[i] := by
        rw [List.getLast?_eq_getElem?, ← heq, Nat.add_sub_cancel, List.getElem?_eq_getElem hlt]
      simp only [heq, List.getElem_concat_length]
      rw [hparent hne, cursorDigest, hlast]
      rfl

/-! ## The invariant -/

theorem RunInv.boot_iff (h : RunInv env bs s) : s.boot = true ↔ bs = [] := by
  unfold State.boot
  rw [h.height, h.digest, cursorHeight]
  constructor
  · intro hb
    by_contra hne
    simp [hne, nnsGenesisHeight] at hb
  · rintro rfl
    rfl

theorem RunInv.wantHeight_eq (h : RunInv env bs s) :
    s.wantHeight = nnsGenesisHeight + bs.length := by
  unfold State.wantHeight
  have hheight := h.height
  unfold cursorHeight at hheight
  by_cases hbs : bs = []
  · rw [if_pos (h.boot_iff.mpr hbs), hheight, hbs]
    rfl
  · have hpos := List.length_pos_of_ne_nil hbs
    rw [if_neg fun hb => hbs (h.boot_iff.mp hb), hheight, if_neg hbs]
    omega

theorem RunInv.fresh : RunInv env [] (fresh env) where
  linked := .nil
  height := rfl
  digest := rfl
  inserted := .new
  start _ := Or.inl rfl
  scanned h := absurd rfl h

section

variable (hh : env.HashLaws) (hm : env.MapLaws)

include hh hm

/-- The accumulator that a block is folded into is the scan of the blocks before it. -/
theorem RunInv.seedAccumulator (h : RunInv env bs s) {seeded : Acc}
    (hseed : seedAccumulator env s = .ok seeded) :
    scanAll env bs = .ok seeded ∧ Inserted env seeded ∧ Seeded env seeded := by
  unfold Kernel.seedAccumulator at hseed
  by_cases hbs : bs = []
  · rw [if_pos (h.boot_iff.mpr hbs)] at hseed
    obtain ⟨acc', hens, hins', -⟩ := ensureGenesisTld_spec hh hm h.inserted
    rw [hseed] at hens
    obtain rfl := Except.ok.inj hens
    have hidem := ensureGenesisTld_idem hh hm h.inserted hseed
    have hnul : ensureGenesisTld env env.zBy.nul = .ok seeded := by
      rcases h.start hbs with hnul | hnul
      · rw [← hnul]
        exact hseed
      · have hagain := ensureGenesisTld_idem hh hm .new hnul
        rw [hseed] at hagain
        rw [hnul, hagain]
    refine ⟨?_, hins', hidem⟩
    unfold scanAll
    rw [hnul, hbs]
    rfl
  · rw [if_neg fun hb => hbs (h.boot_iff.mp hb)] at hseed
    obtain rfl := Except.ok.inj hseed
    exact ⟨(h.scanned hbs).1, h.inserted, (h.scanned hbs).2⟩

theorem Seeded.scan {acc acc' : Acc} (h : Seeded env acc) (hi : Inserted env acc) (b : ScanBlock)
    (hscan : claimScanner env acc b.page b.height b.claims = .ok acc') :
    Inserted env acc' ∧ Seeded env acc' := by
  obtain ⟨acc'', hscan', hi', hview⟩ := scan_spec hh hm b hi
  rw [hscan] at hscan'
  obtain rfl := Except.ok.inj hscan'
  refine ⟨hi', ?_⟩
  obtain ⟨_, hens, -, hviewT⟩ := ensureGenesisTld_spec hh hm hi
  rw [show ensureGenesisTld env acc = .ok acc from h] at hens
  obtain rfl := Except.ok.inj hens
  have hbound : (env.zBy.view acc (keyOf env nnsGenesisTldName)).isSome := by
    rw [hviewT _ (keyOf_based hh _), register]
    cases env.zBy.view acc (keyOf env nnsGenesisTldName) <;> simp
  have hbound' : (env.zBy.view acc' (keyOf env nnsGenesisTldName)).isSome := by
    rw [hview _ (keyOf_based hh _), registerAll_apply]
    obtain ⟨e, he⟩ := Option.isSome_iff_exists.mp hbound
    simp [he]
  unfold Seeded ensureGenesisTld
  rw [has_eq hh hm (hi'.built hh hm), hbound']
  rfl

theorem RunInv.reject (h : RunInv env bs s) (hheight : t.lastProvedHeight = s.lastProvedHeight)
    (hdigest : t.lastProvedDigest = s.lastProvedDigest)
    (hacc : t.accumulator = s.accumulator ∨ ensureGenesisTld env s.accumulator = .ok t.accumulator) :
    RunInv env bs t := by
  have hsame : bs ≠ [] → t.accumulator = s.accumulator := by
    intro hbs
    rcases hacc with hacc | hens
    · exact hacc
    · have hseeded : ensureGenesisTld env s.accumulator = .ok s.accumulator := (h.scanned hbs).2
      rw [hseeded] at hens
      exact (Except.ok.inj hens).symm
  refine ⟨h.linked, hheight.trans h.height, hdigest.trans h.digest, ?_, ?_, ?_⟩
  · rcases hacc with hacc | hens
    · rw [hacc]
      exact h.inserted
    · obtain ⟨acc', hens', hins', -⟩ := ensureGenesisTld_spec hh hm h.inserted
      rw [hens] at hens'
      rw [Except.ok.inj hens']
      exact hins'
  · intro hbs
    rcases hacc with hacc | hens
    · rw [hacc]
      exact h.start hbs
    · have hboot : Kernel.seedAccumulator env s = .ok t.accumulator := by
        unfold Kernel.seedAccumulator
        rw [if_pos (h.boot_iff.mpr hbs)]
        exact hens
      have hscan := (h.seedAccumulator hh hm hboot).1
      rw [hbs] at hscan
      obtain ⟨seeded, hnul, hrest⟩ := bind_eq_ok hscan
      obtain rfl := Except.ok.inj hrest
      exact Or.inr hnul
  · intro hbs
    rw [hsame hbs]
    exact h.scanned hbs

theorem RunInv.accept {c : ScanBlock} (h : RunInv env bs s) (ha : Accepts env s c t) :
    RunInv env (bs ++ [c]) t := by
  obtain ⟨seeded, hseed, hscan⟩ := ha.scan
  obtain ⟨hall, hins, hseeded⟩ := h.seedAccumulator hh hm hseed
  obtain ⟨hins', hseeded'⟩ := hseeded.scan hh hm hins c hscan
  have hheight : c.height = nnsGenesisHeight + bs.length := ha.height.trans h.wantHeight_eq
  have hparent : bs ≠ [] → c.parent = cursorDigest bs := by
    intro hbs
    rcases ha.link with hboot | hlink
    · exact absurd (h.boot_iff.mp hboot) hbs
    · exact hlink.trans h.digest
  refine ⟨h.linked.append_singleton hheight hparent, ?_, ?_, hins', ?_, ?_⟩
  · rw [ha.nextHeight, hheight]
    simp [cursorHeight]
  · rw [ha.nextDigest]
    simp [cursorDigest]
  · intro hnil
    exact absurd hnil (by simp)
  · intro _
    refine ⟨?_, hseeded'⟩
    obtain ⟨seeded₀, hnul, hrest⟩ := bind_eq_ok hall
    unfold scanAll
    rw [hnul, ok_bind]
    unfold scanFrom at hrest ⊢
    rw [List.foldlM_append, hrest]
    simp [hscan]

theorem RunInv.step (h : RunInv env bs s) (input : Noun) :
    RunInv env (bs ++ (step env s input).2.toList) (step env s input).1 := by
  show RunInv env (bs ++ (acceptedBlock env s input).toList) (nextState env s input)
  cases hacc : acceptedBlock env s input with
  | none =>
    obtain ⟨hheight, hdigest, hacc'⟩ := nextState_of_rejected hacc
    rw [Option.toList_none, List.append_nil]
    exact h.reject hh hm hheight hdigest hacc'
  | some c => exact h.accept hh hm (nextState_of_accepted hacc)

/-- Every run satisfies the invariant. -/
theorem runInv (inputs : List Noun) : RunInv env (runBlocks env inputs) (runState env inputs) :=
  history_invariant (I := RunInv env) (fun _ _ input h => h.step hh hm input) (fresh env) inputs []
    .fresh

end

end NnsVerified.Kernel
