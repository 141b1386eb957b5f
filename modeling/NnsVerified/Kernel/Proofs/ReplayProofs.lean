import NnsVerified.Kernel.Proofs.RegistryProofs

/-!
# Payment replay

The accumulator is keyed by name and nothing compares the transaction hashes of claims, so one
payment can register several names. Rows have distinct payments in every state of a run exactly when
the blocks of the run only ever register claims with fresh and distinct transaction hashes.
-/

namespace NnsVerified.Kernel

open NnsVerified.Hoon NnsVerified.Library

variable {Acc Vesl : Type} {env : Env Acc Vesl} {s t : State Acc Vesl} {bs : List ScanBlock}

/-- No two rows, other than the reserved one, were paid for by one transaction. -/
def ReplayFree (env : Env Acc Vesl) (acc : Acc) : Prop :=
  ∀ e ∈ rows env acc, ∀ e' ∈ rows env acc, e ≠ genesisTldEntry → e' ≠ genesisTldEntry →
    e.txHash = e'.txHash → e = e'

/-- What the accumulator of a state holds, with the reserved row at boot. -/
def held (env : Env Acc Vesl) (s : State Acc Vesl) : NnsNameKey → Option NnsAccumulatorEntry :=
  if s.boot then
    register (env.zBy.view s.accumulator) (keyOf env nnsGenesisTldName) genesisTldEntry
  else env.zBy.view s.accumulator

/-- The rows that a block would register: those of its valid claims whose name is free, and of these
the first for each name. -/
def newRows (env : Env Acc Vesl) (s : State Acc Vesl) (c : ScanBlock) : List NnsAccumulatorEntry :=
  (winners (held env s) (c.bindings env)).map Prod.snd

/-- The claims that a block would register have distinct payments, which no row has yet. -/
def FreshPayments (env : Env Acc Vesl) (s : State Acc Vesl) (c : ScanBlock) : Prop :=
  ((newRows env s c).map NnsAccumulatorEntry.txHash).Nodup ∧
    ∀ e ∈ newRows env s c, ∀ e' ∈ rows env s.accumulator, e' ≠ genesisTldEntry →
      e.txHash ≠ e'.txHash

/-- A poke offers a linked block at the required height. -/
def Offers (env : Env Acc Vesl) (s : State Acc Vesl) (input : Noun) (c : ScanBlock) : Prop :=
  softCause env input = some (.scanBlock c) ∧
    (s.boot = true ∨ c.parent = s.lastProvedDigest) ∧ c.height = s.wantHeight

theorem offers_of_accepted {input : Noun} {c : ScanBlock}
    (h : acceptedBlock env s input = some c) : Offers env s input c := by
  have ha := nextState_of_accepted h
  refine ⟨?_, ha.link, ha.height⟩
  unfold acceptedBlock at h
  split at h
  · rename_i hcause _
    obtain rfl := Option.some.inj h
    exact hcause
  · exact absurd h (by simp)

/-- A binding of a block is keyed by the name in its row, which is not the reserved one. -/
theorem mem_bindings {c : ScanBlock} {kv : NnsNameKey × NnsAccumulatorEntry}
    (h : kv ∈ c.bindings env) : kv.1 = keyOf env kv.2.name ∧ kv.2 ≠ genesisTldEntry := by
  obtain ⟨claim, hclaim, rfl⟩ := List.mem_map.mp h
  refine ⟨rfl, fun heq => ?_⟩
  have hname : claim.name = nnsGenesisTldName := congrArg NnsAccumulatorEntry.name heq
  rw [ScanBlock.validClaims_eq] at hclaim
  have hvalid : ValidClaim c.page claim := by simpa using List.of_mem_filter hclaim
  have hshort : ¬ValidName nnsGenesisTldName := by decide
  exact hshort (hname ▸ hvalid.1)

/-- A new row is the row of a winning binding under the key of its name. -/
theorem mem_newRows {c : ScanBlock} {e : NnsAccumulatorEntry} :
    e ∈ newRows env s c ↔ (keyOf env e.name, e) ∈ winners (held env s) (c.bindings env) := by
  constructor
  · intro he
    obtain ⟨kv, hkv, rfl⟩ := List.mem_map.mp he
    have hkey := (mem_bindings ((winners_sublist _ _).subset hkv)).1
    rw [← hkey]
    exact hkv
  · intro h
    exact List.mem_map.mpr ⟨_, h, rfl⟩

theorem newRows_ne_tld {c : ScanBlock} {e : NnsAccumulatorEntry} (h : e ∈ newRows env s c) :
    e ≠ genesisTldEntry :=
  (mem_bindings ((winners_sublist _ _).subset (mem_newRows.mp h))).2

theorem newRows_nodup (c : ScanBlock) : (newRows env s c).Nodup := by
  have hkeys := (winners_free (held env s) (c.bindings env)).2
  refine List.Nodup.map_on ?_ (List.Nodup.of_map _ hkeys)
  intro x hx y hy heq
  have hxk := (mem_bindings ((winners_sublist _ _).subset hx)).1
  have hyk := (mem_bindings ((winners_sublist _ _).subset hy)).1
  exact Prod.ext (by rw [hxk, hyk, heq]) heq

section

variable (hh : env.HashLaws) (hm : env.MapLaws)

include hh hm

/-- The rows after a poke that accepts no block are those before it, up to the reserved row. -/
theorem rows_of_rejected {input : Noun} (hins : Inserted env s.accumulator)
    (h : acceptedBlock env s input = none) {e : NnsAccumulatorEntry} (he : e ≠ genesisTldEntry) :
    e ∈ rows env (nextState env s input).accumulator ↔ e ∈ rows env s.accumulator := by
  obtain ⟨-, -, hsame | hens⟩ := nextState_of_rejected h
  · rw [hsame]
  · obtain ⟨acc', hens', hins', hview⟩ := ensureGenesisTld_spec hh hm hins
    rw [hens] at hens'
    obtain rfl := Except.ok.inj hens'
    rw [hins'.mem_rows hh hm, hins.mem_rows hh hm, hview _ (keyOf_based hh _), register]
    cases env.zBy.view s.accumulator (keyOf env e.name) with
    | some e' => simp
    | none =>
      rw [Option.none_or]
      split
      · simp [he.symm]
      · simp

/-- The rows after an accepted block: those before it and the new ones, up to the reserved row. -/
theorem rows_of_accepted {input : Noun} {c : ScanBlock} (hins : Inserted env s.accumulator)
    (h : acceptedBlock env s input = some c) {e : NnsAccumulatorEntry} (he : e ≠ genesisTldEntry) :
    Inserted env (nextState env s input).accumulator ∧
      (e ∈ rows env (nextState env s input).accumulator ↔
        e ∈ rows env s.accumulator ∨ e ∈ newRows env s c) := by
  obtain ⟨seeded, hseed, hscan⟩ := (nextState_of_accepted h).scan
  have hseeded : Inserted env seeded ∧ ∀ k, k.Based → env.zBy.view seeded k = held env s k := by
    unfold seedAccumulator at hseed
    unfold held
    split at hseed
    · rename_i hboot
      obtain ⟨acc', hens, hins', hview⟩ := ensureGenesisTld_spec hh hm hins
      rw [hseed] at hens
      obtain rfl := Except.ok.inj hens
      rw [if_pos hboot]
      exact ⟨hins', hview⟩
    · rename_i hboot
      obtain rfl := Except.ok.inj hseed
      rw [if_neg hboot]
      exact ⟨hins, fun k _ => rfl⟩
  obtain ⟨hins₁, hheld⟩ := hseeded
  obtain ⟨acc', hscan', hins', hview⟩ := scan_spec hh hm c hins₁
  rw [hscan] at hscan'
  obtain rfl := Except.ok.inj hscan'
  refine ⟨hins', ?_⟩
  have hkey := keyOf_based hh e.name
  have hwinners : winners (env.zBy.view seeded) (c.bindings env)
      = winners (held env s) (c.bindings env) := by
    refine winners_congr fun kv hkv => hheld _ ?_
    rw [(mem_bindings hkv).1]
    exact keyOf_based hh _
  rw [hins'.mem_rows hh hm, hview _ hkey, registerAll_eq_some_iff, hwinners, ← mem_newRows,
    hheld _ hkey, hins.mem_rows hh hm]
  refine or_congr_left ?_
  -- the reserved row is the only one that seeding adds
  unfold held
  split
  · rw [register]
    cases env.zBy.view s.accumulator (keyOf env e.name) with
    | some e' => simp
    | none =>
      rw [Option.none_or]
      split
      · simp [he.symm]
      · simp
  · exact Iff.rfl

/-- A new row lies under a key that no row had. -/
theorem newRows_not_held {c : ScanBlock} (hins : Inserted env s.accumulator)
    {e : NnsAccumulatorEntry} (he : e ∈ newRows env s c) : e ∉ rows env s.accumulator := by
  intro hold
  have hfree := (winners_free (held env s) (c.bindings env)).1 _ (mem_newRows.mp he)
  have hview := (hins.mem_rows hh hm e).mp hold
  unfold held at hfree
  split at hfree
  · rw [register, hview] at hfree
    exact absurd hfree (by simp)
  · rw [hview] at hfree
    exact absurd hfree (by simp)

theorem ReplayFree.reject {input : Noun} (hins : Inserted env s.accumulator)
    (h : acceptedBlock env s input = none) (hfree : ReplayFree env s.accumulator) :
    ReplayFree env (nextState env s input).accumulator := by
  intro e he e' he' hne hne' htx
  exact hfree e ((rows_of_rejected hh hm hins h hne).mp he) e'
    ((rows_of_rejected hh hm hins h hne').mp he') hne hne' htx

/-- After an accepted block, rows are replay-free exactly when they were and the block brought fresh
payments. -/
theorem replayFree_accept_iff {input : Noun} {c : ScanBlock} (hins : Inserted env s.accumulator)
    (h : acceptedBlock env s input = some c) (hfree : ReplayFree env s.accumulator) :
    ReplayFree env (nextState env s input).accumulator ↔ FreshPayments env s c := by
  constructor
  · intro hnext
    refine ⟨List.Nodup.map_on ?_ (newRows_nodup c), ?_⟩
    · intro e he e' he' htx
      have hne := newRows_ne_tld he
      have hne' := newRows_ne_tld he'
      exact hnext e ((rows_of_accepted hh hm hins h hne).2.mpr (Or.inr he)) e'
        ((rows_of_accepted hh hm hins h hne').2.mpr (Or.inr he')) hne hne' htx
    · intro e he e' he' hne' htx
      have hne := newRows_ne_tld he
      have heq := hnext e ((rows_of_accepted hh hm hins h hne).2.mpr (Or.inr he)) e'
        ((rows_of_accepted hh hm hins h hne').2.mpr (Or.inl he')) hne hne' htx
      exact newRows_not_held hh hm hins he (heq ▸ he')
  · rintro ⟨hnodup, hfresh⟩ e he e' he' hne hne' htx
    rcases (rows_of_accepted hh hm hins h hne).2.mp he with hold | hnew
    · rcases (rows_of_accepted hh hm hins h hne').2.mp he' with hold' | hnew'
      · exact hfree e hold e' hold' hne hne' htx
      · exact absurd htx.symm (hfresh e' hnew' e hold hne)
    · rcases (rows_of_accepted hh hm hins h hne').2.mp he' with hold' | hnew'
      · exact absurd htx (hfresh e hnew e' hold' hne')
      · exact List.inj_on_of_nodup_map hnodup hnew hnew' htx

end

/-- A property of the accumulator that rejected pokes keep, and that an accepted block keeps exactly
where the block meets a condition: it holds throughout a run in which every offered block meets the
condition, and only where every accepted block does. -/
theorem throughout_run {P : Acc → Prop} {Q : State Acc Vesl → ScanBlock → Prop}
    (hh : env.HashLaws) (hm : env.MapLaws) (hnew : P env.zBy.nul)
    (hreject : ∀ {s : State Acc Vesl} {input : Noun}, Inserted env s.accumulator →
      acceptedBlock env s input = none → P s.accumulator → P (nextState env s input).accumulator)
    (haccept : ∀ {s : State Acc Vesl} {input : Noun} {c : ScanBlock}, Inserted env s.accumulator →
      acceptedBlock env s input = some c → P s.accumulator →
        (P (nextState env s input).accumulator ↔ Q s c))
    (inputs : List Noun) :
    ((∀ before input after, inputs = before ++ input :: after →
        ∀ c, Offers env (runState env before) input c → Q (runState env before) c) →
      ∀ before after, inputs = before ++ after → P (runState env before).accumulator) ∧
    ((∀ before after, inputs = before ++ after → P (runState env before).accumulator) →
      ∀ before input after, inputs = before ++ input :: after →
        ∀ c, acceptedBlock env (runState env before) input = some c →
          Q (runState env before) c) := by
  constructor
  · intro hoffers before
    induction before using List.reverseRecOn with
    | nil => exact fun _ _ => hnew
    | append_singleton before input ih =>
      intro after hsplit
      rw [List.append_assoc] at hsplit
      have hbefore := ih _ hsplit
      have hins := (runInv hh hm before).inserted
      rw [runState_snoc]
      cases hacc : acceptedBlock env (runState env before) input with
      | none => exact hreject hins hacc hbefore
      | some c =>
        exact (haccept hins hacc hbefore).mpr
          (hoffers before input after hsplit c (offers_of_accepted hacc))
  · intro hall before input after hsplit c hacc
    have hins := (runInv hh hm before).inserted
    have hnext := hall (before ++ [input]) after (by rw [hsplit, List.append_cons])
    rw [runState_snoc] at hnext
    exact (haccept hins hacc (hall before _ hsplit)).mp hnext

/-- The empty map has no rows. -/
theorem rows_nul (hh : env.HashLaws) (hm : env.MapLaws) (e : NnsAccumulatorEntry) :
    e ∉ rows env env.zBy.nul := by
  intro he
  have hview := (Inserted.new.mem_rows hh hm e).mp he
  rw [MapOps.Lawful.view_nul hm (keyOf_based hh _)] at hview
  exact absurd hview (by simp)

/-- Rows are replay-free throughout a run in which every offered block brings fresh payments, and
only if every accepted block does. -/
theorem replay_free_when_fresh (hh : env.HashLaws) (hm : env.MapLaws) (inputs : List Noun) :
    ((∀ before input after, inputs = before ++ input :: after →
        ∀ c, Offers env (runState env before) input c →
          FreshPayments env (runState env before) c) →
      ∀ before after, inputs = before ++ after →
        ReplayFree env (runState env before).accumulator) ∧
    ((∀ before after, inputs = before ++ after →
        ReplayFree env (runState env before).accumulator) →
      ∀ before input after, inputs = before ++ input :: after →
        ∀ c, acceptedBlock env (runState env before) input = some c →
          FreshPayments env (runState env before) c) :=
  throughout_run hh hm (fun e he => absurd he (rows_nul hh hm e))
    (fun hins hacc hfree => hfree.reject hh hm hins hacc)
    (fun hins hacc hfree => replayFree_accept_iff hh hm hins hacc hfree) inputs

/-- A block after the contested one, with a claim of another name by the same owner and a late claim
of the contested name. -/
def laterBlock : ScanBlock where
  parent := 7
  height := nnsGenesisHeight + 1
  pageDigest := 8
  pageTxIds := [23, 24]
  claims := [paidClaim (cord "b.nock") 3 23, paidClaim (cord "a.nock") 5 24]

theorem replay_free_when_fresh_contested :
    rows sampleEnv (runState sampleEnv [contestedBlock.noun, laterBlock.noun]).accumulator =
      [⟨cord "b.nock", 3, 23, nnsGenesisHeight + 1, 8⟩, ⟨cord "a.nock", 3, 21, nnsGenesisHeight, 7⟩,
        genesisTldEntry] ∧
    ReplayFree sampleEnv
      (runState sampleEnv [contestedBlock.noun, laterBlock.noun]).accumulator := by
  refine ⟨by decide +kernel, (replay_free_when_fresh sampleEnv_hashLaws sampleEnv_mapLaws
    [contestedBlock.noun, laterBlock.noun]).1 ?_ [contestedBlock.noun, laterBlock.noun] [] rfl⟩
  rintro before input after hsplit c ⟨hcause, -, -⟩
  match before, hsplit with
  | [], hsplit =>
    obtain ⟨rfl, -⟩ := List.cons.inj hsplit
    rw [softCause_scanBlock] at hcause
    obtain rfl : contestedBlock = c := by simpa using hcause
    unfold FreshPayments
    decide +kernel
  | [_], hsplit =>
    obtain ⟨rfl, hrest⟩ := List.cons.inj hsplit
    obtain ⟨rfl, -⟩ := List.cons.inj (show [laterBlock.noun] = input :: after from hrest)
    rw [softCause_scanBlock] at hcause
    obtain rfl : laterBlock = c := by simpa using hcause
    unfold FreshPayments
    decide +kernel
  | _ :: _ :: before, hsplit =>
    have hlength := congrArg List.length hsplit
    simp at hlength

/-- One transaction with two claim outputs. -/
def replayBlock : ScanBlock where
  parent := 0
  height := nnsGenesisHeight
  pageDigest := 7
  pageTxIds := [20]
  claims := [paidClaim (cord "a.nock") 1 20, paidClaim (cord "b.nock") 1 20]

theorem replay_registers_two_names :
    ¬∀ inputs : List Noun, ReplayFree sampleEnv (runState sampleEnv inputs).accumulator := by
  intro h
  have hrows : rows sampleEnv (runState sampleEnv [replayBlock.noun]).accumulator =
      [⟨cord "b.nock", 1, 20, nnsGenesisHeight, 7⟩, ⟨cord "a.nock", 1, 20, nnsGenesisHeight, 7⟩,
        genesisTldEntry] := by
    decide +kernel
  have heq := h [replayBlock.noun] ⟨cord "a.nock", 1, 20, nnsGenesisHeight, 7⟩ (by simp [hrows])
    ⟨cord "b.nock", 1, 20, nnsGenesisHeight, 7⟩ (by simp [hrows]) (by decide) (by decide) rfl
  exact absurd heq (by decide)

end NnsVerified.Kernel
