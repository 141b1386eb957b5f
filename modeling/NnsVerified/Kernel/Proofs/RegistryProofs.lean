import NnsVerified.Kernel.Proofs.CursorProofs

/-!
# The registry: the first valid claim of a name wins

The accumulator of a run is the first-writer-wins registration of the reserved row and then of the
valid claims of the accepted blocks, in their order. No poke changes or removes a row.
-/

namespace NnsVerified.Kernel

open NnsVerified.Hoon NnsVerified.Library

variable {Acc Vesl : Type} {env : Env Acc Vesl} {s : State Acc Vesl}

/-- The valid claims of a list of blocks, each with its block. -/
def validClaimsOf (bs : List ScanBlock) : List (ScanBlock × NnsClaim) :=
  bs.flatMap fun b => b.validClaims.map fun c => (b, c)

/-- The key and the row of a claim. -/
def claimBinding (env : Env Acc Vesl) (bc : ScanBlock × NnsClaim) :
    NnsNameKey × NnsAccumulatorEntry :=
  (keyOf env bc.2.name, bc.1.entry bc.2)

/-- The names have distinct keys. -/
def KeysDistinct (env : Env Acc Vesl) (names : List Nat) : Prop :=
  ∀ a ∈ names, ∀ b ∈ names, nameKey env a = nameKey env b → a = b

instance (names : List Nat) : Decidable (KeysDistinct env names) :=
  inferInstanceAs (Decidable (∀ a ∈ names, ∀ b ∈ names, nameKey env a = nameKey env b → a = b))

theorem flatMap_bindings (bs : List ScanBlock) :
    (bs.flatMap fun b => b.bindings env) = (validClaimsOf bs).map (claimBinding env) := by
  induction bs with
  | nil => rfl
  | cons b bs ih =>
    unfold validClaimsOf at ih ⊢
    rw [List.flatMap_cons, List.flatMap_cons, List.map_append, ih, List.map_map]
    rfl

/-- Searching bindings by the key of a name finds the first claim of that name. -/
theorem find?_claimBinding {name : Nat} {l : List (ScanBlock × NnsClaim)}
    (hkey : ∀ bc ∈ l, keyOf env bc.2.name = keyOf env name → bc.2.name = name) :
    ((l.map (claimBinding env)).find? fun kv => kv.1 = keyOf env name).map Prod.snd
      = (l.find? fun bc => bc.2.name = name).map fun bc => bc.1.entry bc.2 :=
  find?_map_key hkey

section

variable (hh : env.HashLaws) (hm : env.MapLaws)

include hh hm

theorem scanFrom_spec (bs : List ScanBlock) {acc : Acc} (h : Inserted env acc) :
    ∃ acc', scanFrom env acc bs = .ok acc' ∧ Inserted env acc' ∧
      ∀ k, k.Based → env.zBy.view acc' k =
        registerAll (env.zBy.view acc) (bs.flatMap fun b => b.bindings env) k :=
  MapOps.foldlM_registers (fun _ b h => scan_spec hh hm b h) bs h

/-- The accumulator of a list of blocks registers the reserved row and then the valid claims. -/
theorem scanAll_view {bs : List ScanBlock} {acc : Acc} (h : scanAll env bs = .ok acc)
    {k : NnsNameKey} (hk : k.Based) :
    env.zBy.view acc k = (((keyOf env nnsGenesisTldName, genesisTldEntry) ::
      (validClaimsOf bs).map (claimBinding env)).find? fun kv => kv.1 = k).map Prod.snd := by
  obtain ⟨seeded, hseed, hscan⟩ := bind_eq_ok h
  obtain ⟨seeded', hseed', hins, hview⟩ := ensureGenesisTld_spec hh hm (.new : Inserted env _)
  rw [hseed] at hseed'
  obtain rfl := Except.ok.inj hseed'
  obtain ⟨acc', hscan', -, hview'⟩ := scanFrom_spec hh hm bs hins
  rw [hscan] at hscan'
  obtain rfl := Except.ok.inj hscan'
  have hnul : env.zBy.view env.zBy.nul k = none := MapOps.Lawful.view_nul hm hk
  calc env.zBy.view acc k
      = registerAll (env.zBy.view seeded) (bs.flatMap fun b => b.bindings env) k := hview' k hk
    _ = registerAll (register (env.zBy.view env.zBy.nul) (keyOf env nnsGenesisTldName)
          genesisTldEntry) (bs.flatMap fun b => b.bindings env) k :=
        registerAll_congr_at (hview k hk) _
    _ = registerAll (env.zBy.view env.zBy.nul) ((keyOf env nnsGenesisTldName, genesisTldEntry) ::
          bs.flatMap fun b => b.bindings env) k := rfl
    _ = _ := by rw [registerAll_apply, hnul, Option.none_or, flatMap_bindings]

theorem step_keeps_rows {k : NnsNameKey} (hk : k.Based) {e : NnsAccumulatorEntry} (input : Noun)
    (hs : Inserted env s.accumulator ∧ env.zBy.view s.accumulator k = some e) :
    Inserted env (step env s input).1.accumulator ∧
      env.zBy.view (step env s input).1.accumulator k = some e := by
  have hensure : ∀ {acc : Acc}, ensureGenesisTld env s.accumulator = .ok acc →
      Inserted env acc ∧ env.zBy.view acc k = some e := by
    intro acc hens
    obtain ⟨acc', hens', hins, hview⟩ := ensureGenesisTld_spec hh hm hs.1
    rw [hens] at hens'
    obtain rfl := Except.ok.inj hens'
    exact ⟨hins, by rw [hview k hk, register_of_some hs.2]⟩
  show Inserted env (nextState env s input).accumulator ∧
    env.zBy.view (nextState env s input).accumulator k = some e
  cases hacc : acceptedBlock env s input with
  | none =>
    obtain ⟨-, -, hsame | hens⟩ := nextState_of_rejected hacc
    · rw [hsame]
      exact hs
    · exact hensure hens
  | some c =>
    obtain ⟨seeded, hseed, hscan⟩ := (nextState_of_accepted hacc).scan
    have hseeded : Inserted env seeded ∧ env.zBy.view seeded k = some e := by
      unfold seedAccumulator at hseed
      split at hseed
      · exact hensure hseed
      · obtain rfl := Except.ok.inj hseed
        exact hs
    obtain ⟨acc', hscan', hins, hview⟩ := scan_spec hh hm c hseeded.1
    rw [hscan] at hscan'
    obtain rfl := Except.ok.inj hscan'
    refine ⟨hins, ?_⟩
    rw [hview k hk, registerAll_apply, hseeded.2]
    rfl

end

/-- Once a block has been accepted, a lookup finds the first valid claim of the name over the whole
run, the reserved row is held, and a row that a lookup once found is found ever after. -/
theorem first_valid_claim_wins (hh : env.HashLaws) (hm : env.MapLaws) (inputs : List Noun)
    (hne : runBlocks env inputs ≠ []) (name : Nat) (hname : name ≠ nnsGenesisTldName)
    (hkeys : KeysDistinct env (name :: nnsGenesisTldName ::
      (validClaimsOf (runBlocks env inputs)).map fun bc => bc.2.name)) :
    get env (runState env inputs).accumulator name
      = .ok (((validClaimsOf (runBlocks env inputs)).find? fun bc => bc.2.name = name).map
          fun bc => ⟨name, bc.2.owner, bc.2.txHash, bc.1.height, bc.1.pageDigest⟩) ∧
    get env (runState env inputs).accumulator nnsGenesisTldName = .ok (some genesisTldEntry) ∧
    ∀ (before later : List Noun) (n : Nat) (e : NnsAccumulatorEntry),
      get env (runState env before).accumulator n = .ok (some e) →
      get env (runState env (before ++ later)).accumulator n = .ok (some e) := by
  have hinv := runInv hh hm inputs
  have hscan := (hinv.scanned hne).1
  have hbuilt := hinv.inserted.built hh hm
  have hinj : ∀ a ∈ name :: nnsGenesisTldName ::
      (validClaimsOf (runBlocks env inputs)).map (fun bc => bc.2.name),
      keyOf env a = keyOf env name → a = name := by
    intro a ha heq
    refine hkeys a ha name (by simp) ?_
    rw [nameKey_eq hh, nameKey_eq hh, heq]
  refine ⟨?_, ?_, ?_⟩
  · rw [get_eq hh hm hbuilt, scanAll_view hh hm hscan (keyOf_based hh name)]
    have htld : keyOf env nnsGenesisTldName ≠ keyOf env name :=
      fun h => hname (hinj _ (by simp) h).symm
    rw [List.find?_cons_of_neg (by simpa using htld), find?_claimBinding fun bc hbc =>
      hinj _ (List.mem_cons_of_mem _ (List.mem_cons_of_mem _ (List.mem_map.mpr ⟨bc, hbc, rfl⟩)))]
    congr 1
    refine Option.map_congr fun bc hbc => ?_
    have hbcname : bc.2.name = name := by simpa using List.find?_some hbc
    rw [← hbcname]
    rfl
  · rw [get_eq hh hm hbuilt, scanAll_view hh hm hscan (keyOf_based hh _),
      List.find?_cons_of_pos (by simp)]
    rfl
  · intro before later n e hget
    have hbefore := (runInv hh hm before).inserted
    rw [get_eq hh hm (hbefore.built hh hm)] at hget
    have hview := Except.ok.inj hget
    have hrun : runState env (before ++ later) = final (step env) (runState env before) later :=
      final_append (step env) (fresh env) before later
    have hkeep : Inserted env (runState env (before ++ later)).accumulator ∧
        env.zBy.view (runState env (before ++ later)).accumulator (keyOf env n) = some e := by
      rw [hrun]
      exact final_invariant
        (I := fun t => Inserted env t.accumulator ∧
          env.zBy.view t.accumulator (keyOf env n) = some e)
        (fun s input hs => step_keeps_rows hh hm (keyOf_based hh n) input hs)
        (runState env before) later ⟨hbefore, hview⟩
    rw [get_eq hh hm (hkeep.1.built hh hm), hkeep.2]

/-- Two claims for one name, after one that its owner did not sign. -/
def contestedBlock : ScanBlock where
  parent := 0
  height := nnsGenesisHeight
  pageDigest := 7
  pageTxIds := [20, 21, 22]
  claims := [{ paidClaim (cord "a.nock") 1 20 with owner := 2 }, paidClaim (cord "a.nock") 3 21,
    paidClaim (cord "a.nock") 4 22]

theorem first_valid_claim_wins_contested :
    get sampleEnv (runState sampleEnv [contestedBlock.noun]).accumulator (cord "a.nock")
      = .ok (some ⟨cord "a.nock", 3, 21, nnsGenesisHeight, 7⟩) := by
  have hblocks : runBlocks sampleEnv [contestedBlock.noun] = [contestedBlock] := by
    decide +kernel
  have hkeys : KeysDistinct sampleEnv (cord "a.nock" :: nnsGenesisTldName ::
      (validClaimsOf [contestedBlock]).map fun bc => bc.2.name) := by
    decide +kernel
  have hfind : ((validClaimsOf [contestedBlock]).find? fun bc => bc.2.name = cord "a.nock")
      = some (contestedBlock, paidClaim (cord "a.nock") 3 21) := by
    decide
  have hwins := (first_valid_claim_wins sampleEnv_hashLaws sampleEnv_mapLaws [contestedBlock.noun]
    (by rw [hblocks]; simp) (cord "a.nock") (by decide) (by rw [hblocks]; exact hkeys)).1
  rw [hblocks, hfind] at hwins
  exact hwins

end NnsVerified.Kernel
