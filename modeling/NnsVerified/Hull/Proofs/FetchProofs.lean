import NnsVerified.Hull.Fetch
import NnsVerified.Hull.Proofs.HullAtomProofs
import NnsVerified.Hull.Proofs.RegistrationProofs

/-!
# Fetching blocks

A batch is fetched by tasks that run in any order. Whatever the order and the answers of the node,
the fetch comes to an end, with no more requests at a time than there are permits; from a node that
answers with the blocks of a chain it gets these blocks in their order.
-/

namespace NnsVerified.Hull

open NnsVerified.Hoon NnsVerified.Library NnsVerified.Kernel

variable {H Z L : Type} {c : Crates H Z L} {service : BlockService}

/-- Every request has an answer, if only an error. -/
structure BlockService.Answers (service : BlockService) : Prop where
  connect : ∃ answer, service.connect answer
  block : ∀ height, ∃ answer, service.getBlockDetails height answer
  transaction : ∀ txId attempt, ∃ answer, service.getTransactionDetails txId attempt answer

/-- A fetch has the expected result, or an error, but no error from a node that is healthy. -/
def Correct {α : Type} (expected : α) (healthy : Prop) (r : Except String α) : Prop :=
  r = .ok expected ∨ ((∃ e, r = .error e) ∧ ¬healthy)

theorem Correct.mono {α : Type} {expected : α} {healthy healthy' : Prop} {r : Except String α}
    (h : Correct expected healthy r) (himp : healthy' → healthy) : Correct expected healthy' r :=
  h.imp id fun ⟨he, hsick⟩ => ⟨he, fun hh => hsick (himp hh)⟩

theorem correct_of_joined {S α : Type} {expected : S → α} {healthy : Prop} {tasks : List S}
    {r : Except String (List α)}
    (h : Pool.Joined (tasks.map fun s => Correct (expected s) healthy) r) :
    Correct (tasks.map expected) healthy r := by
  induction tasks generalizing r with
  | nil =>
    cases h
    exact Or.inl rfl
  | cons s tasks ih =>
    cases h with
    | @ok _ _ a rest hQ hrest =>
      obtain rfl : a = expected s := by
        rcases hQ with hQ | ⟨⟨e, he⟩, -⟩
        · exact Except.ok.inj hQ
        · cases he
      rcases ih hrest with rfl | ⟨⟨e, rfl⟩, hsick⟩
      · exact Or.inl rfl
      · exact Or.inr ⟨⟨e, rfl⟩, hsick⟩
    | @error _ _ e hQ =>
      rcases hQ with hQ | ⟨-, hsick⟩
      · cases hQ
      · exact Or.inr ⟨⟨e, rfl⟩, hsick⟩

/-! ## Transactions -/

section

variable {idx : Nat} {hash : String} {Q : Except String (Nat × TransactionDetails) → Prop}

/-- A task is finished by an answer, or asks again, but not after the last attempt. -/
theorem receive_cases (idx : Nat) (hash : String) (attempt : Nat) (delayMs : UInt64)
    (answer : Except String GetTransactionDetailsResponse) :
    (∃ r, TxFetch.receive idx hash attempt delayMs answer = .done r) ∨
      (attempt < maxAttempts ∧
        ∃ delayMs', TxFetch.receive idx hash attempt delayMs answer
          = .asking idx hash (attempt + 1) delayMs') := by
  unfold TxFetch.receive
  cases fetchTransactionDetailsOutcome hash answer with
  | error e => exact Or.inl ⟨_, rfl⟩
  | ok outcome =>
    cases outcome with
    | ready d => exact Or.inl ⟨_, rfl⟩
    | pending =>
      dsimp only
      by_cases hlast : attempt ≥ maxAttempts
      · rw [if_pos hlast]
        exact Or.inl ⟨_, rfl⟩
      · rw [if_neg hlast]
        exact Or.inr ⟨by omega, _, rfl⟩

theorem txFetch_done {r : Except String (Nat × TransactionDetails)} (hr : Q r) :
    Settles (txFetch service) Q (.done r) := by
  refine .intro (fun t hstep => by cases hstep) (fun a ha => ?_) (fun hnone => by cases hnone)
  obtain rfl := Option.some.inj ha
  exact hr

/-- The task of a transaction settles: it asks at most `maxAttempts` times. -/
theorem txFetch_settles (hans : service.Answers)
    (hQ : ∀ attempt ≤ maxAttempts, ∀ delayMs answer r,
      service.getTransactionDetails hash attempt answer →
      TxFetch.receive idx hash attempt delayMs answer = .done r → Q r)
    {attempt : Nat} (hle : attempt ≤ maxAttempts) (delayMs : UInt64) :
    Settles (txFetch service) Q (.asking idx hash attempt delayMs) := by
  -- on the number of attempts that are left
  induction hleft : maxAttempts - attempt using Nat.strong_induction_on
    generalizing attempt delayMs with
  | _ left ih =>
    refine .intro (fun t hstep => ?_) (fun a ha => by cases ha) (fun _ => ?_)
    · cases hstep with
      | @answered _ _ _ _ answer hanswer =>
        rcases receive_cases idx hash attempt delayMs answer with ⟨r, hr⟩ | ⟨hlt, delayMs', hr⟩
        · rw [hr]
          exact txFetch_done (hQ attempt hle delayMs answer r hanswer hr)
        · rw [hr]
          exact ih (maxAttempts - (attempt + 1)) (by omega) (by omega) delayMs' rfl
    · obtain ⟨answer, hanswer⟩ := hans.transaction hash attempt
      exact ⟨_, .answered idx delayMs hanswer⟩

end

/-! ## Nodes that tell a chain -/

/-- What a node answers about blocks and transactions is a chain. It may list the transactions of a
block in any order. -/
structure BlockService.Tells (service : BlockService) (c : Crates H Z L) (chain : ServedChain)
    (bodyAt : String → TransactionDetails) : Prop where
  block : ∀ {height d}, service.getBlockDetails height (.ok (.details d)) →
    ∃ header, blockHeader c height d = .ok header ∧
      finishBlock c header (d.txIds.map bodyAt) = .ok (chain.blockAt height)
  transaction : ∀ {txId attempt d}, service.getTransactionDetails txId attempt (.ok (.details d)) →
    d = bodyAt txId

/-- A node that does not fail up to a tip, and whose index of transactions does not lag behind its
blocks for all attempts of a task. -/
structure BlockService.Healthy (service : BlockService) (tip : UInt64) : Prop where
  connect : ∀ {answer}, service.connect answer → answer = .ok ()
  block : ∀ {height answer}, height ≤ tip → service.getBlockDetails height answer →
    ∃ d, answer = .ok (.details d)
  transaction : ∀ {height d}, height ≤ tip → service.getBlockDetails height (.ok (.details d)) →
    ∀ txId ∈ d.txIds, ∀ {attempt answer}, service.getTransactionDetails txId attempt answer →
      (∃ t, answer = .ok (.details t)) ∨ (answer = .ok .pending ∧ attempt < maxAttempts)

section

variable {chain : ServedChain} {bodyAt : String → TransactionDetails}

/-- The task of a transaction returns its body, with its index. -/
theorem txFetch_correct (hans : service.Answers) (htells : service.Tells c chain bodyAt)
    {healthy : Prop} (idx : Nat) {hash : String}
    (hhealthy : healthy → ∀ {attempt answer}, service.getTransactionDetails hash attempt answer →
      (∃ t, answer = .ok (.details t)) ∨ (answer = .ok .pending ∧ attempt < maxAttempts)) :
    Settles (txFetch service) (Correct (idx, bodyAt hash) healthy)
      (.asking idx hash 1 initialDelayMs) := by
  refine txFetch_settles hans (fun attempt hle delayMs answer r hanswer hr => ?_) (by decide) _
  unfold TxFetch.receive fetchTransactionDetailsOutcome at hr
  cases answer with
  | error e =>
    obtain rfl := TxFetch.done.inj hr
    refine Or.inr ⟨⟨_, rfl⟩, fun hh => ?_⟩
    rcases hhealthy hh hanswer with ⟨t, ht⟩ | ⟨ht, -⟩ <;> cases ht
  | ok response =>
    cases response with
    | details d =>
      obtain rfl := TxFetch.done.inj hr
      rw [htells.transaction hanswer]
      exact Or.inl rfl
    | pending =>
      by_cases hlast : attempt ≥ maxAttempts
      · simp only [Except.mapError, ok_bind, if_pos hlast] at hr
        obtain rfl := TxFetch.done.inj hr
        refine Or.inr ⟨⟨_, rfl⟩, fun hh => ?_⟩
        rcases hhealthy hh hanswer with ⟨t, ht⟩ | ⟨-, hlt⟩
        · cases ht
        · omega
      · simp only [Except.mapError, ok_bind, if_neg hlast] at hr
        cases hr
    | error message =>
      obtain rfl := TxFetch.done.inj hr
      refine Or.inr ⟨⟨_, rfl⟩, fun hh => ?_⟩
      rcases hhealthy hh hanswer with ⟨t, ht⟩ | ⟨ht, -⟩ <;> cases ht
    | empty =>
      obtain rfl := TxFetch.done.inj hr
      refine Or.inr ⟨⟨_, rfl⟩, fun hh => ?_⟩
      rcases hhealthy hh hanswer with ⟨t, ht⟩ | ⟨ht, -⟩ <;> cases ht

theorem inBlockOrder_zipIdx (txIds : List String) (bodyAt : String → TransactionDetails) :
    inBlockOrder (txIds.zipIdx.map fun p => (p.2, bodyAt p.1)) = txIds.map bodyAt := by
  have hsorted : (txIds.zipIdx.map fun p => (p.2, bodyAt p.1)).Pairwise
      fun a b => a.1 ≤ b.1 := by
    refine List.pairwise_map.mpr ?_
    have hidx : (txIds.zipIdx.map Prod.snd).Pairwise (· ≤ ·) := by
      rw [List.zipIdx_map_snd]
      exact List.pairwise_le_range'
    exact List.pairwise_map.mp hidx
  unfold inBlockOrder
  rw [sortByKey_eq hsorted fun _ => rfl, List.map_map]
  have hfst : (Prod.snd ∘ fun p : String × Nat => (p.2, bodyAt p.1)) = bodyAt ∘ Prod.fst := rfl
  rw [hfst, ← List.map_map, List.zipIdx_map_fst]

/-- The transactions of a block are fetched in the order of the block. -/
theorem txTasks_settles (hans : service.Answers) (htells : service.Tells c chain bodyAt)
    (healthy : Prop) {txIds : List String}
    (hhealthy : healthy → ∀ txId ∈ txIds, ∀ {attempt answer},
      service.getTransactionDetails txId attempt answer →
      (∃ t, answer = .ok (.details t)) ∨ (answer = .ok .pending ∧ attempt < maxAttempts)) :
    Settles (Pool.worker (txFetch service))
      (fun r => Correct (txIds.map bodyAt) healthy (r.map inBlockOrder)) (txTasks txIds) := by
  have hpool : Settles (Pool.worker (txFetch service))
      (Pool.Joined (txIds.zipIdx.map fun p => Correct (p.2, bodyAt p.1) healthy))
      (txTasks txIds) := by
    refine Pool.settles (by decide) ?_
    rw [List.forall₂_map_left_iff, List.forall₂_map_right_iff, List.forall₂_same]
    intro p hp
    have hmem : p.1 ∈ txIds := by
      have hfst := List.mem_map_of_mem (f := Prod.fst) hp
      rwa [List.zipIdx_map_fst] at hfst
    exact txFetch_correct hans htells p.2 fun hh => hhealthy hh p.1 hmem
  refine hpool.mono fun r hr => ?_
  rcases correct_of_joined hr with rfl | ⟨⟨e, rfl⟩, hsick⟩
  · refine Or.inl ?_
    rw [← inBlockOrder_zipIdx]
    rfl
  · exact Or.inr ⟨⟨e, rfl⟩, hsick⟩

/-! ## Blocks -/

theorem blockFetch_done {Q : Except String ScanBlockFetch → Prop} {r : Except String ScanBlockFetch}
    (hr : Q r) : Settles (blockFetch c service) Q (.done r) := by
  refine .intro (fun t hstep => by cases hstep) (fun a ha => ?_) (fun hnone => by cases hnone)
  obtain rfl := Option.some.inj ha
  exact hr

/-- A block settles with what its end makes of its transactions. -/
theorem fetching_settles {Q : Except String ScanBlockFetch → Prop} {header : BlockHeader}
    {Qtxs : Except String (List (Nat × TransactionDetails)) → Prop}
    (hQ : ∀ r, Qtxs r → Q (r.bind fun indexed => finishBlock c header (inBlockOrder indexed)))
    {tasks : TxPool} (h : Settles (Pool.worker (txFetch service)) Qtxs tasks) :
    Settles (blockFetch c service) Q (.fetching header tasks) := by
  induction h with
  | @intro tasks _ sound live ih =>
    refine .intro (fun t hstep => ?_) (fun a ha => by cases ha) (fun _ => ?_)
    · cases hstep with
      | task _ hstep => exact ih _ hstep
      | joined _ hjoined => exact blockFetch_done (hQ _ (sound _ hjoined))
    · cases hjoined : Pool.joinAll tasks.slots with
      | some r => exact ⟨_, .joined header hjoined⟩
      | none =>
        obtain ⟨tasks', hstep⟩ := live hjoined
        exact ⟨_, .task header hstep⟩

theorem blockHeader_details {height : UInt64} {d : BlockDetails} {header : BlockHeader}
    (h : blockHeader c height d = .ok header) : header.details = d := by
  unfold blockHeader at h
  obtain ⟨_, -, h⟩ := bind_eq_ok h
  obtain ⟨_, -, h⟩ := bind_eq_ok h
  obtain ⟨_, -, h⟩ := bind_eq_ok h
  rw [← Except.ok.inj h]

theorem fetchBlockDetails_ok {height : UInt64} {connected : Except String Unit}
    {answer : Except String GetBlockDetailsResponse} {d : BlockDetails}
    (h : fetchBlockDetailsByHeight height connected answer = .ok d) : answer = .ok (.details d) := by
  unfold fetchBlockDetailsByHeight at h
  obtain ⟨_, -, h⟩ := bind_eq_ok h
  obtain ⟨response, hresponse, h⟩ := bind_eq_ok h
  rw [mapError_eq_ok.mp hresponse]
  cases response with
  | details d' => rw [Except.ok.inj h]
  | error message => cases h
  | empty => cases h

theorem connecting_settles (hans : service.Answers) (htells : service.Tells c chain bodyAt)
    {height : UInt64} {header : BlockHeader}
    (hblock : service.getBlockDetails height (.ok (.details header.details)))
    (hfinish : finishBlock c header (header.details.txIds.map bodyAt)
      = .ok (chain.blockAt height)) :
    Settles (blockFetch c service)
      (Correct (chain.blockAt height) (∃ tip, service.Healthy tip ∧ height ≤ tip))
      (.connecting header) := by
  refine .intro (fun t hstep => ?_) (fun a ha => by cases ha) (fun _ => ?_)
  · cases hstep with
    | @connected _ answer hconnect =>
      unfold BlockFetch.connected
      cases answer with
      | error e =>
        refine blockFetch_done (Or.inr ⟨⟨_, rfl⟩, ?_⟩)
        rintro ⟨tip, hhealthy, -⟩
        cases hhealthy.connect hconnect
      | ok _ =>
        refine fetching_settles (fun r hr => ?_) (txTasks_settles hans htells
          (∃ tip, service.Healthy tip ∧ height ≤ tip) ?_)
        · cases r with
          | error e => exact Or.inr ⟨⟨e, rfl⟩, hr.elim (fun h => by cases h) fun h => h.2⟩
          | ok indexed =>
            rcases hr with hr | ⟨⟨e, he⟩, -⟩
            · refine Or.inl ?_
              rw [← hfinish, ← Except.ok.inj hr]
              rfl
            · cases he
        · rintro ⟨tip, hhealthy, hle⟩ txId hmem attempt answer hanswer
          exact hhealthy.transaction hle hblock txId hmem hanswer
  · obtain ⟨answer, hconnect⟩ := hans.connect
    exact ⟨_, .connected header hconnect⟩

/-- The fetch of a block settles with the block of the chain. -/
theorem blockFetch_settles (hans : service.Answers) (htells : service.Tells c chain bodyAt)
    (height : UInt64) :
    Settles (blockFetch c service)
      (Correct (chain.blockAt height) (∃ tip, service.Healthy tip ∧ height ≤ tip))
      (.asking height) := by
  refine .intro (fun t hstep => ?_) (fun a ha => by cases ha) (fun _ => ?_)
  · cases hstep with
    | @answered _ connected answer hconnect hanswer =>
      have hsick : ∀ {e}, fetchBlockDetailsByHeight height connected answer = .error e →
          ¬∃ tip, service.Healthy tip ∧ height ≤ tip := by
        rintro e he ⟨tip, hhealthy, hle⟩
        obtain rfl := hhealthy.connect hconnect
        obtain ⟨d, rfl⟩ := hhealthy.block hle hanswer
        cases he
      unfold BlockFetch.receive
      cases hdetails : fetchBlockDetailsByHeight height connected answer with
      | error e => exact blockFetch_done (Or.inr ⟨⟨e, rfl⟩, hsick hdetails⟩)
      | ok d =>
        have hblock : service.getBlockDetails height (.ok (.details d)) := by
          rwa [fetchBlockDetails_ok hdetails] at hanswer
        obtain ⟨header, hheader, hfinish⟩ := htells.block hblock
        obtain rfl := blockHeader_details hheader
        simp only [Except.bind, hheader]
        by_cases hempty : header.details.txIds.isEmpty
        · rw [if_pos hempty]
          rw [List.isEmpty_iff.mp hempty] at hfinish
          exact blockFetch_done (Or.inl hfinish)
        · rw [if_neg hempty]
          exact connecting_settles hans htells hblock hfinish
  · obtain ⟨connected, hconnect⟩ := hans.connect
    obtain ⟨answer, hanswer⟩ := hans.block height
    exact ⟨_, .answered hconnect hanswer⟩

/-! ## Batches -/

/-- No more transactions of a block are asked for at a time than there are permits for them. -/
def BlockFetch.Bounded : BlockFetch → Prop
  | .fetching _ tasks => tasks.running ≤ maxConcurrentTxFetches
  | _ => True

/-- A block that is being fetched got its tasks from the permits of one pool. -/
def BlockFetch.Started (service : BlockService) : BlockFetch → Prop
  | .fetching header tasks =>
    Relation.ReflTransGen (Pool.Step (txFetch service)) (txTasks header.details.txIds) tasks
  | _ => True

theorem BlockFetch.Started.step {s t : BlockFetch} (h : s.Started service)
    (hstep : BlockFetch.Step c service s t) : t.Started service := by
  cases hstep with
  | answered hconnect hanswer =>
    unfold BlockFetch.receive
    split
    · trivial
    · split <;> trivial
  | connected header hconnect =>
    unfold BlockFetch.connected
    split
    · trivial
    · exact .refl
  | task header hstep => exact .tail h hstep
  | joined header hjoined => trivial

theorem BlockFetch.Started.bounded {s : BlockFetch} (h : s.Started service) : s.Bounded := by
  cases s with
  | fetching header tasks => exact Pool.running_le h
  | _ => trivial

theorem prefetch_settles (hans : service.Answers) (htells : service.Tells c chain bodyAt)
    {heights : List UInt64} (hascending : heights.Pairwise (· < ·)) (maxConcurrentBlocks : Nat) :
    Settles (prefetchScanBlocks c service)
      (Correct (heights.map chain.blockAt) (∃ tip, service.Healthy tip ∧ ∀ h ∈ heights, h ≤ tip))
      (blockTasks heights maxConcurrentBlocks) := by
  have hpool : Settles (Pool.worker (blockFetch c service))
      (Pool.Joined (heights.map fun h => Correct (chain.blockAt h)
        (∃ tip, service.Healthy tip ∧ ∀ h ∈ heights, h ≤ tip)))
      (blockTasks heights maxConcurrentBlocks) := by
    refine Pool.settles (by omega) ?_
    rw [List.forall₂_map_left_iff, List.forall₂_map_right_iff, List.forall₂_same]
    intro h hh
    refine (blockFetch_settles hans htells h).mono fun r hr => hr.mono ?_
    rintro ⟨tip, hhealthy, hle⟩
    exact ⟨tip, hhealthy, hle h hh⟩
  refine hpool.map fun r hr => ?_
  rcases correct_of_joined hr with rfl | ⟨⟨e, rfl⟩, hsick⟩
  · -- the blocks are sorted as they come
    refine Or.inl (congrArg Except.ok (sortByKey_eq ?_ fun _ => rfl))
    refine List.pairwise_map.mpr (hascending.imp fun hlt => ?_)
    rw [chain.height_eq, chain.height_eq]
    exact (UInt64.lt_iff_toNat_lt.mp hlt).le
  · exact Or.inr ⟨⟨e, rfl⟩, hsick⟩

/-- No more blocks, and for each of them no more transactions, are asked for at a time than there
are permits. -/
theorem prefetch_bounded {heights : List UInt64} {maxConcurrentBlocks : Nat} {p : BlockPool}
    (hrun : Relation.ReflTransGen (prefetchScanBlocks c service).step
      (blockTasks heights maxConcurrentBlocks) p) :
    p.running ≤ max maxConcurrentBlocks 1 ∧ ∀ s, .running s ∈ p.slots → s.Bounded := by
  have hrun : Relation.ReflTransGen (Pool.Step (blockFetch c service))
    (Pool.start (max maxConcurrentBlocks 1) (heights.map .asking)) p := hrun
  refine ⟨Pool.running_le hrun, fun s hs => ?_⟩
  have hstarted : s.Started service := by
    refine Pool.running_invariant (fun t ht => ?_) (fun _ _ ht hstep => ht.step hstep) hrun s
      (Or.inr hs)
    obtain ⟨h, -, rfl⟩ := List.mem_map.mp ht
    trivial
  exact hstarted.bounded

/-- Every run of the fetch of a batch, in any order of its tasks: it cannot go on for ever, each of
its states is within the permits, it can always be continued to a result, and a result is the blocks
of the chain in their order, or an error that a healthy node does not cause. -/
theorem prefetch_any_schedule (hans : service.Answers) (htells : service.Tells c chain bodyAt)
    (heights : List UInt64) (hascending : heights.Pairwise (· < ·)) (maxConcurrentBlocks : Nat) :
    Acc (fun q p => (prefetchScanBlocks c service).step p q)
        (blockTasks heights maxConcurrentBlocks) ∧
    ∀ p, Relation.ReflTransGen (prefetchScanBlocks c service).step
        (blockTasks heights maxConcurrentBlocks) p →
      (p.running ≤ max maxConcurrentBlocks 1 ∧ ∀ s, .running s ∈ p.slots → s.Bounded) ∧
      (∃ q r, Relation.ReflTransGen (prefetchScanBlocks c service).step p q ∧
        (prefetchScanBlocks c service).result q = some r) ∧
      ∀ r, (prefetchScanBlocks c service).result p = some r →
        r = .ok (heights.map chain.blockAt) ∨
          ((∃ e, r = .error e) ∧ ¬∃ tip, service.Healthy tip ∧ ∀ h ∈ heights, h ≤ tip) := by
  have hsettles := prefetch_settles hans htells hascending maxConcurrentBlocks
  refine ⟨hsettles.acc, fun p hrun => ⟨prefetch_bounded hrun, ?_, fun r hr => ?_⟩⟩
  · obtain ⟨q, r, hq, hr, -⟩ := (hsettles.run hrun).ends
    exact ⟨q, r, hq, hr⟩
  · exact (hsettles.run hrun).sound hr

end

/-! ## Passes -/

section

variable [DecidableEq H]

/-- A pass whose batches come from a node that tells a chain, in any order of the tasks. -/
structure Tick.FetchesFrom (service : BlockService) (chain : LinkedChain c)
    (bodyAt : String → TransactionDetails) (tick : Tick) : Prop where
  answers : service.Answers
  tells : service.Tells c chain.toServedChain bodyAt
  tip : ∀ tip, tick.currentChainTip = .ok tip → tip ≤ chain.top
  batch : 1 ≤ tick.batchMax
  prefetch : ∀ heights : List UInt64, heights.Pairwise (· < ·) → ∃ p,
    Relation.ReflTransGen (prefetchScanBlocks c service).step
      (blockTasks heights scanBlockPrefetchConcurrency) p ∧
    (prefetchScanBlocks c service).result p = some (tick.prefetch heights)

variable {chain : LinkedChain c} {bodyAt : String → TransactionDetails} {tick : Tick}

/-- What a pass fetched is the chain, or an error that a healthy node does not cause. -/
theorem Tick.FetchesFrom.correct (h : tick.FetchesFrom service chain bodyAt) {heights : List UInt64}
    (hascending : heights.Pairwise (· < ·)) :
    Correct (heights.map chain.blockAt) (∃ tip, service.Healthy tip ∧ ∀ h ∈ heights, h ≤ tip)
      (tick.prefetch heights) := by
  obtain ⟨p, hrun, hresult⟩ := h.prefetch heights hascending
  have hsettles := (prefetch_settles h.answers h.tells hascending scanBlockPrefetchConcurrency).run hrun
  exact hsettles.sound hresult

theorem Tick.FetchesFrom.honest (h : tick.FetchesFrom service chain bodyAt) : tick.Honest chain where
  tip := h.tip
  batch := h.batch
  serves heights hascending blocks hblocks := by
    rcases h.correct hascending with hok | ⟨⟨e, he⟩, -⟩
    · exact Except.ok.inj (hblocks.symm.trans hok)
    · rw [he] at hblocks
      cases hblocks

theorem Tick.FetchesFrom.reaches (h : tick.FetchesFrom service chain bodyAt) {tip batch : Nat}
    {t : UInt64} (htip : tick.currentChainTip = .ok t) (hle : tip ≤ t.toNat)
    (hbatch : batch ≤ tick.batchMax.toNat) (hhealthy : service.Healthy t) :
    tick.Reaches tip batch where
  tip := ⟨t, htip, hle⟩
  batch := hbatch
  fetches t' ht' heights hascending hbelow := by
    obtain rfl := Except.ok.inj (htip.symm.trans ht')
    rcases h.correct hascending with hok | ⟨-, hsick⟩
    · exact ⟨_, hok⟩
    · exact absurd ⟨t, hhealthy, hbelow⟩ hsick

/-- The follower catches up with a chain that nodes tell, whatever the order in which the tasks of
its fetches run: passes may fail in any way before `m` passes over healthy nodes, which take it on
by `m` batches or to the last final block. -/
theorem follower_catches_up_from_nodes {Acc Vesl : Type} {env : PeekEnv Acc Vesl} (hn : c.NounLaws)
    (hh : env.HashLaws) (hm : env.MapLaws) (hprover : ProverEnds env.toEnv)
    (hfuel : traceBudget ≤ env.fuel) (chain : LinkedChain c) (bodyAt : String → TransactionDetails)
    (before passes : List Tick) (tip batch : Nat)
    (hbefore : ∀ t ∈ before, ∃ service, t.FetchesFrom service chain bodyAt)
    (hpasses : ∀ t ∈ passes, ∃ service chainTip, t.FetchesFrom service chain bodyAt ∧
      t.currentChainTip = .ok chainTip ∧ tip ≤ chainTip.toNat ∧ batch ≤ t.batchMax.toNat ∧
      service.Healthy chainTip) :
    ∃ k', runBlocks env.toEnv (followerPokes c env (before ++ passes)) = chain.log k' ∧
      min (batch * passes.length) (finalBlocks tip) ≤ k' := by
  have hhonest : ∀ t ∈ before, t.Honest chain := fun t ht =>
    (hbefore t ht).elim fun _ h => h.honest
  have hhonest' : ∀ t ∈ passes, t.Honest chain := fun t ht => by
    obtain ⟨service, chainTip, h, -⟩ := hpasses t ht
    exact h.honest
  have hreaches : ∀ t ∈ passes, t.Reaches tip batch := fun t ht => by
    obtain ⟨service, chainTip, h, htip, hle, hbatch, hhealthy⟩ := hpasses t ht
    exact h.reaches htip hle hbatch hhealthy
  obtain ⟨k, -, hscanned, -⟩ : ∃ k, _ ∧ ScannedTo chain env.toEnv k (followerPokes c env before) ∧ _ :=
    (ScannedTo.start chain env.toEnv).passes hh hm hn hhonest
  obtain ⟨k', -, hscanned', hprogress⟩ := hscanned.passes hh hm hn hhonest'
  have hle := hprogress hprover hfuel tip batch hreaches
  refine ⟨k', ?_, by omega⟩
  unfold followerPokes at hscanned' ⊢
  rw [List.foldl_append]
  exact hscanned'.log

end

/-! ### A node with a payment -/

/-- The block of a height as the node describes it, with a transaction at the first height. -/
def paidDetails (height : UInt64) : BlockDetails where
  height := height
  blockId := atomBytesToHash (leBytes 40 (height.toNat + 1))
  parent := atomBytesToHash (leBytes 40 height.toNat)
  txIds := if height = 63000 then ["T1"] else []

/-- A node that tells `paidServed`, and may answer that a transaction is pending. -/
def paidService : BlockService where
  connect answer := answer = .ok ()
  getBlockDetails height answer := answer = .ok (.details (paidDetails height))
  getTransactionDetails _ attempt answer :=
    answer = .ok (.details (claimTransaction "T1" "eve" "nns/v1/claim/a.nock")) ∨
      (answer = .ok .pending ∧ attempt < maxAttempts)

theorem paidService_answers : paidService.Answers where
  connect := ⟨_, rfl⟩
  block _ := ⟨_, rfl⟩
  transaction _ _ := ⟨_, Or.inl rfl⟩

theorem paidService_healthy (tip : UInt64) : paidService.Healthy tip where
  connect h := h
  block _ h := ⟨_, h⟩
  transaction _ _ _ _ _ _ h := h.imp (fun h => ⟨_, h⟩) id

theorem blockHeader_paidDetails (height : UInt64) :
    blockHeader sampleCrates height (paidDetails height)
      = .ok ⟨paidDetails height, leBytes 40 (height.toNat + 1), leBytes 40 height.toNat,
        (paidServed.blockAt height).pageTxIds⟩ := by
  have hids : txIdsFromBlockDetails sampleCrates (paidDetails height)
      = .ok (paidServed.blockAt height).pageTxIds := by
    show (if height = 63000 then ["T1"] else []).mapM (base58HashToAtomBytes sampleCrates)
      = .ok (if height = 63000 then _ else _)
    split
    · decide +kernel
    · rfl
  unfold blockHeader
  rw [hids]
  unfold paidDetails
  rw [atomBytesToHash_of_length (length_leBytes _ _), atomBytesToHash_of_length (length_leBytes _ _)]
  simp only [Option.elim_some, ok_bind, hashToAtomBytes_hashOfLimbs,
    limbBytes_limbs (length_leBytes _ _)]
  rfl

theorem align_paidDetails (height : UInt64) :
    alignScanBlockFetchTxOrder sampleCrates (paidServed.blockAt height).pageTxIds
      ((paidDetails height).txIds.map fun _ => claimTransaction "T1" "eve" "nns/v1/claim/a.nock")
      = .ok ((paidServed.blockAt height).pageTxIds, (paidServed.blockAt height).txDetails) := by
  show alignScanBlockFetchTxOrder sampleCrates (if height = 63000 then _ else _)
    ((if height = 63000 then ["T1"] else []).map _)
      = .ok (if height = 63000 then _ else _, if height = 63000 then _ else _)
  split
  · decide +kernel
  · rfl

theorem paidService_tells : paidService.Tells sampleCrates paidServed
    fun _ => claimTransaction "T1" "eve" "nns/v1/claim/a.nock" where
  block {height} _ h := by
    obtain rfl := GetBlockDetailsResponse.details.inj (Except.ok.inj h)
    refine ⟨_, blockHeader_paidDetails height, ?_⟩
    unfold finishBlock
    rw [align_paidDetails]
    rfl
  transaction h := by
    rcases h with h | ⟨h, -⟩
    · exact GetTransactionDetailsResponse.details.inj (Except.ok.inj h)
    · cases h

/-- A fetch of two blocks from a pool that was given no permit gets both. -/
theorem prefetch_any_schedule_paid : ∃ q,
    Relation.ReflTransGen (prefetchScanBlocks sampleCrates paidService).step
      (blockTasks [63000, 63001] 0) q ∧
    (prefetchScanBlocks sampleCrates paidService).result q
      = some (.ok [paidServed.blockAt 63000, paidServed.blockAt 63001]) := by
  have hfetch := (prefetch_any_schedule paidService_answers paidService_tells [63000, 63001]
    (by decide) 0).2
  obtain ⟨q, r, hrun, hresult⟩ := (hfetch _ .refl).2.1
  rcases (hfetch q hrun).2.2 r hresult with rfl | ⟨-, hsick⟩
  · exact ⟨q, hrun, hresult⟩
  · have hle : ∀ h ∈ [(63000 : UInt64), 63001], h ≤ 63001 := by
      intro h hh
      rcases List.mem_pair.mp hh with rfl | rfl
      · exact UInt64.le_of_lt (by decide)
      · exact UInt64.le_refl _
    exact absurd ⟨63001, paidService_healthy _, hle⟩ hsick

/-- A pass over that node, up to a tip. -/
theorem fetchesFrom_paidService {tip : UInt64} (htip : tip ≤ 63012) :
    (servedTick paidServed tip).FetchesFrom paidService paidChain
      fun _ => claimTransaction "T1" "eve" "nns/v1/claim/a.nock" where
  answers := paidService_answers
  tells := paidService_tells
  tip t ht := by
    obtain rfl := Except.ok.inj ht
    exact htip
  batch := show (1 : UInt64) ≤ 2 by decide
  prefetch heights hascending := by
    have hsettles := prefetch_settles paidService_answers paidService_tells hascending
      scanBlockPrefetchConcurrency
    obtain ⟨q, r, hrun, hresult, hr⟩ := hsettles.ends
    rcases hr with rfl | ⟨-, hsick⟩
    · exact ⟨q, hrun, hresult⟩
    · have hmax : ∀ h : UInt64, h ≤ UInt64.ofNat (2 ^ 64 - 1) := fun h =>
        UInt64.le_iff_toNat_le.mpr (show h.toNat ≤ 2 ^ 64 - 1 from Nat.le_pred_of_lt h.toNat_lt)
      exact absurd ⟨_, paidService_healthy _, fun h _ => hmax h⟩ hsick

theorem follower_catches_up_from_nodes_paid : ∃ k', 1 ≤ k' ∧
    runBlocks sampleEnv (followerPokes sampleCrates samplePeekEnv [servedTick paidServed 63010])
      = paidChain.log k' := by
  obtain ⟨k', hlog, hle⟩ := @follower_catches_up_from_nodes _ _ _ sampleCrates _ _ _ samplePeekEnv
    sampleCrates_nounLaws sampleEnv_hashLaws sampleEnv_mapLaws (fun _ _ _ _ h => by cases h)
    (by decide) paidChain (fun _ => claimTransaction "T1" "eve" "nns/v1/claim/a.nock") []
    [servedTick paidServed 63010] 63010 2 (fun t ht => by cases ht) (fun t ht => by
      obtain rfl := List.mem_singleton.mp ht
      exact ⟨paidService, 63010, fetchesFrom_paidService (by decide), rfl, le_rfl, le_rfl,
        paidService_healthy _⟩)
  refine ⟨k', ?_, hlog⟩
  have hfinal : finalBlocks 63010 = 1 := rfl
  rw [hfinal] at hle
  simpa using hle

end NnsVerified.Hull
