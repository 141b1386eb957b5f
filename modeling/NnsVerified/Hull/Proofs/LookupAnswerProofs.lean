import NnsVerified.Hull.BatchRun
import NnsVerified.Hull.Proofs.RegistrationProofs

/-!
# What a lookup answers

Whatever the schedule of the server, a finished `GET /accumulator/:name` answers for the blocks of the
chain that the pokes finished before it have made: with the first claim that is paid for the name,
with *not registered* where there is none, and with *invalid name* where the name is not one.
-/

namespace NnsVerified.Hull

open NnsVerified.Hoon NnsVerified.Library NnsVerified.Kernel

variable {H Z L Acc Vesl : Type} {c : Crates H Z L} {env : PeekEnv Acc Vesl} {s : State Acc Vesl}

/-! ## A lookup on one state -/

/-- `dig:z-by` finds the axis of a key that has a row, and of no other. -/
def DigLaw (env : PeekEnv Acc Vesl) : Prop :=
  ∀ acc name, Inserted env.toEnv acc → ∃ axis, env.dig acc (keyOf env.toEnv name) = .ok axis ∧
    (axis.isSome ↔ ∃ e, (keyOf env.toEnv name, e) ∈ env.zBy.tap acc)

/-- A peek under the lock that finds a value goes on with it. -/
theorem askKernel_bind {α β : Type} {what : String} {p : Peek} {decode : Noun → Except String α}
    {f : α → ExceptT ApiError (Critical (State Acc Vesl)) β} {seeded : Acc}
    (hseeded : ensureGenesisTld env.toEnv s.accumulator = .ok seeded) {value : Noun} {a : α}
    (hvalue : peekValue env s p = .ok value)
    (hdecode : decode (Noun.tuple (.atom 0) [.atom 0, value]) = .ok a) :
    (askKernel env what p.path decode >>= f).run.run s = (f a).run.run s := by
  have hask : (askKernel env what p.path decode).run.run s = (s, .ok a) := by
    refine Prod.ext rfl ?_
    show (do
      let answer ← (peekNoun env s p.path).mapError fun _ =>
        serverError s!"kernel {what} peek failed"
      (decode answer).mapError fun e => serverError s!"decode {what} failed: {e}") = _
    rw [peekNoun_path, hseeded, ok_bind, hvalue]
    exact mapError_eq_ok.mpr hdecode
  rw [Critical.run_bindCont, hask]
  rfl

theorem registryAnswer_ok (hn : c.NounLaws) {name : String} {answer : Option AccumulatorEntry}
    (h : registryAnswer c env s name = .ok answer) :
    ∃ value, peekValue env s (.accumulator (cord name)) = .ok value ∧
      decodeAccumulatorEntry c (Noun.tuple (.atom 0) [.atom 0, value]) = .ok answer := by
  unfold registryAnswer at h
  rw [buildAccumulatorPeek_eq hn] at h
  cases hpeek : peekNoun env s (Peek.accumulator (cord name)).path with
  | error e =>
    rw [hpeek] at h
    cases h
  | ok result =>
    rw [hpeek] at h
    obtain ⟨value, hvalue, rfl⟩ := peekNoun_path_ok hpeek
    exact ⟨value, hvalue, h⟩

/-- A row that is answered is held. -/
theorem registryAnswer_row (hn : c.NounLaws) {name : String} {a : AccumulatorEntry}
    (h : registryAnswer c env s name = .ok (some a)) :
    ∃ e, get env.toEnv s.accumulator (cord name) = .ok (some e) := by
  obtain ⟨value, hvalue, hdecode⟩ := registryAnswer_ok hn h
  obtain ⟨found, hfound, hvalue⟩ := bind_eq_ok hvalue
  obtain rfl := Except.ok.inj hvalue
  obtain ⟨e, rfl, -⟩ := decodeAccumulatorEntry_ok hn hdecode
  exact ⟨e, hfound⟩

theorem scanStateOf_ok (hn : c.NounLaws) {st : ScanState} (h : scanStateOf c env s = .ok st) :
    ∃ value, peekValue env s .scanState = .ok value ∧
      decodeScanState c (Noun.tuple (.atom 0) [.atom 0, value]) = .ok st := by
  unfold scanStateOf at h
  rw [buildScanStatePeek_eq hn] at h
  obtain ⟨result, hresult, h⟩ := bind_eq_ok h
  obtain ⟨value, hvalue, rfl⟩ := peekNoun_path_ok (mapError_eq_ok.mp hresult)
  exact ⟨value, hvalue, mapError_eq_ok.mp h⟩

section

variable (hn : c.NounLaws) {seeded : Acc}
  (hseeded : ensureGenesisTld env.toEnv s.accumulator = .ok seeded)

include hn hseeded

theorem accumulatorSection_absent {name : String}
    (h : registryAnswer c env s name = .ok none) (walletExport : Bool) :
    (accumulatorSection c env name walletExport).run.run s
      = (s, .error (notFound "not registered")) := by
  obtain ⟨value, hvalue, hdecode⟩ := registryAnswer_ok hn h
  unfold accumulatorSection
  rw [buildAccumulatorPeek_eq hn, askKernel_bind hseeded hvalue hdecode]
  rfl

theorem accumulatorSection_found {name : String} {a : AccumulatorEntry}
    (h : registryAnswer c env s name = .ok (some a)) {st : ScanState}
    (hst : scanStateOf c env s = .ok st) {axis : Option Nat}
    (haxis : proofAxis env s.accumulator (cord name) = .ok axis) (walletExport : Bool) :
    ∃ l, (accumulatorSection c env name walletExport).run.run s = (s, .ok l) ∧ l.entry = a ∧
      l.scanState = st ∧ l.proofAxis.isSome = axis.isSome ∧
      l.accumulatorSnapshotHex.isSome = walletExport := by
  obtain ⟨value, hvalue, hdecode⟩ := registryAnswer_ok hn h
  obtain ⟨scan, hscan, hdecodeScan⟩ := scanStateOf_ok hn hst
  have hproof : peekValue env s (.accumulatorProof (cord name))
      = .ok (unitNoun (axis.map Noun.atom)) := by
    unfold peekValue
    dsimp only
    rw [haxis]
    rfl
  obtain ⟨axisBytes, hdecodeAxis, haxisBytes⟩ : ∃ bytes, decodeAccumulatorProofAxis c
      (Noun.tuple (.atom 0) [.atom 0, unitNoun (axis.map Noun.atom)]) = .ok bytes ∧
        bytes.isSome = axis.isSome := by
    cases axis with
    | none => exact ⟨none, rfl, rfl⟩
    | some n => exact ⟨_, rfl, rfl⟩
  obtain ⟨rp, hrp, recursiveProof, hdecodeProof⟩ : ∃ rp, peekValue env s .recursiveProof = .ok rp ∧
      ∃ proof, decodeRecursiveProof c (Noun.tuple (.atom 0) [.atom 0, rp]) = .ok proof := by
    unfold peekValue
    cases s.recursiveProof with
    | none => exact ⟨_, rfl, none, rfl⟩
    | some stored => exact ⟨_, rfl, _, rfl⟩
  unfold accumulatorSection
  rw [buildAccumulatorPeek_eq hn, askKernel_bind hseeded hvalue hdecode]
  dsimp only
  rw [buildAccumulatorProofPeek_eq hn, askKernel_bind hseeded hproof hdecodeAxis,
    buildScanStatePeek_eq hn, askKernel_bind hseeded hscan hdecodeScan]
  obtain ⟨snapshot, hsnapshot, hsome⟩ : ∃ snapshot : Option String,
      (snapshotSection c env walletExport).run.run s = (s, .ok snapshot) ∧
        snapshot.isSome = walletExport := by
    unfold snapshotSection
    cases walletExport with
    | false => exact ⟨none, rfl, rfl⟩
    | true =>
      rw [if_pos rfl, buildAccumulatorJamPeek_eq hn]
      exact ⟨_, askKernel_bind hseeded (p := .accumulatorJam) rfl rfl, rfl⟩
  rw [Critical.run_bindCont, hsnapshot]
  show ∃ l, (askKernel env _ (buildRecursiveProofPeek c) _ >>= _).run.run s = _ ∧ _
  rw [buildRecursiveProofPeek_eq hn, askKernel_bind hseeded hrp hdecodeProof]
  exact ⟨_, rfl, rfl, rfl, haxisBytes, hsome⟩

end

/-! ## Pokes of a chain -/

variable [DecidableEq H]

/-- The blocks that the pokes of the server carry are those of a chain, below its top. -/
def SendsChain {ι : Type} (env : PeekEnv Acc Vesl) (chain : LinkedChain c)
    (tasks : ι → ServerTask) : Prop :=
  ∀ i input b, (tasks i).input = some input → softCause env.toEnv input = some (.scanBlock b) →
    ∃ n, n < chain.top.toNat ∧ b = chain.kernelBlockAt (UInt64.ofNat n)

omit [DecidableEq H] in
theorem softCause_of_acceptedBlock {env : Env Acc Vesl} {input : Noun} {b : ScanBlock}
    (h : acceptedBlock env s input = some b) : softCause env input = some (.scanBlock b) := by
  unfold acceptedBlock at h
  split at h
  · rename_i hcause _
    obtain rfl := Option.some.inj h
    exact hcause
  · cases h

/-- Whatever the order of the pokes, the log is the chain from the genesis height on. -/
theorem scannedTo_of_sends (hh : env.HashLaws) (hm : env.MapLaws) {chain : LinkedChain c}
    {inputs : List Noun} (hsends : ∀ input ∈ inputs, ∀ b,
      softCause env.toEnv input = some (.scanBlock b) →
      ∃ n, n < chain.top.toNat ∧ b = chain.kernelBlockAt (UInt64.ofNat n)) :
    ScannedTo chain env.toEnv (runBlocks env.toEnv inputs).length inputs := by
  have hlinked := (runInv hh hm inputs).linked
  -- the kernel places each block of the chain at its height
  have hat : ∀ i (hi : i < (runBlocks env.toEnv inputs).length),
      Kernel.nnsGenesisHeight + i < chain.top.toNat ∧ (runBlocks env.toEnv inputs)[i]
        = chain.kernelBlockAt (UInt64.ofNat (Kernel.nnsGenesisHeight + i)) := by
    intro i hi
    obtain ⟨t, input, hinput, haccepted⟩ := exists_of_mem_history (List.getElem_mem hi)
    obtain ⟨n, hn, hblock⟩ := hsends input hinput _ (softCause_of_acceptedBlock haccepted)
    have hheight := hlinked.heights i hi
    rw [hblock, chain.kernelBlockAt_height hn.le] at hheight
    rw [← hheight]
    exact ⟨hn, hblock⟩
  refine ⟨List.ext_getElem (by simp) fun i hi _ => ?_, ?_⟩
  · rw [(hat i hi).2]
    simp [LinkedChain.log, chainLog]
  · by_cases hempty : (runBlocks env.toEnv inputs).length = 0
    · exact Or.inl hempty
    · have hlast := (hat ((runBlocks env.toEnv inputs).length - 1) (by omega)).1
      exact Or.inr (by omega)

/-! ## Schedules -/

section

variable {ι : Type} [DecidableEq ι]

/-- The value of a response is the paid claim, its fields in hex. -/
structure ShowsClaim (chain : ServedChain) (q : UInt64 × ClaimCandidate)
    (v : AccumulatorValueResponse) : Prop where
  owner : cord v.owner = cord q.2.owner
  txHash : ∃ bytes, hexDecodeEven v.txHash = .ok bytes ∧ leValue bytes = leValue q.2.txHash
  claimHeight : v.claimHeight = q.1
  blockDigest : ∃ bytes, hexDecodeEven v.blockDigest = .ok bytes ∧
    leValue bytes = leValue (chain.blockAt q.1).pageDigest

/-- In every schedule of lookups and of pokes with the blocks of a chain, every finished lookup has an
answer for the blocks that the pokes finished before it have made: the first paid claim of the name,
or that there is none. -/
theorem lookups_answer_paid (hn : c.NounLaws) (hl : c.LimbLaws) (hz : c.ZSetLaws)
    (hh : env.HashLaws) (hm : env.MapLaws) (hdig : DigLaw env) (chain : LinkedChain c)
    (hlists : chain.Lists c) (tasks : ι → ServerTask) (hsends : SendsChain env chain tasks)
    (schedule : List (Turn ι)) (i : ι) (name : String) (walletExport : Bool)
    (htask : tasks i = .lookup name walletExport) (r : Except ApiError AccumulatorLookupResponse)
    (hr : (final turn (server c env tasks) schedule).task i = .finished (.answered r)) :
    (isValidName name = false → r = .error (badRequest "invalid name")) ∧
    (isValidName name = true → ∃ inputs k,
      inputs <+: finishedPokes c env tasks schedule ∧
      (∀ pre, pre <+: schedule →
        (∀ a, (final turn (server c env tasks) pre).task i ≠ .finished a) →
        finishedPokes c env tasks pre <+: inputs) ∧
      runBlocks env.toEnv inputs = chain.log k ∧
      (KeysDistinct env.toEnv (cord name :: nnsGenesisTldName ::
          (chain.paid k).map fun q => cord q.2.name) →
        ((chain.paid k).find? (fun q => q.2.name = name) = none →
          r = .error (notFound "not registered")) ∧
        ∀ q, (chain.paid k).find? (fun q => q.2.name = name) = some q → ∃ resp v, r = .ok resp ∧
          resp.name = name ∧ resp.value = some v ∧ ShowsClaim chain.toServedChain q v ∧
          resp.lastProvedHeight.toNat + 1 = Kernel.nnsGenesisHeight + k ∧
          resp.proofAxis.isSome ∧ resp.accumulatorSnapshotHex.isSome = walletExport)) := by
  rcases lookup_ran htask hr with ⟨hname, herr⟩ | ⟨hname, before, t, result, hbefore, hrun, rfl⟩
  · exact ⟨fun _ => herr, fun hvalid => absurd (hname.symm.trans hvalid) (by simp)⟩
  refine ⟨fun hinvalid => absurd (hname.symm.trans hinvalid) (by simp), fun _ => ?_⟩
  have hsent : ∀ input ∈ before.filterMap fun i => (tasks i).input, ∀ b,
      softCause env.toEnv input = some (.scanBlock b) →
      ∃ n, n < chain.top.toNat ∧ b = chain.kernelBlockAt (UInt64.ofNat n) := by
    intro input hinput b hb
    obtain ⟨j, -, hj⟩ := List.mem_filterMap.mp hinput
    exact hsends j input b hj hb
  have hscanned := scannedTo_of_sends hh hm hsent
  have hins := (hscanned.runInv hh hm).inserted
  obtain ⟨seeded, hseeded, -⟩ := ensureGenesisTld_spec hh hm hins
  refine ⟨_, _, ((List.prefix_append before [i]).trans hbefore).filterMap _, ?_, hscanned.log,
    fun hkeys => ?_⟩
  · rintro pre ⟨post, rfl⟩ hunfinished
    exact (history_prefix_before hunfinished hbefore).filterMap _
  obtain ⟨answer, hanswer, hrel⟩ := hscanned.registryAnswer hn hl hz hh hm hlists hname hkeys
  constructor
  · intro hnone
    rw [hnone] at hrel
    cases hrel
    rw [accumulatorSection_absent hn hseeded hanswer] at hrun
    obtain ⟨-, rfl⟩ := Prod.mk.inj hrun
    rfl
  · intro q hq
    rw [hq] at hrel
    cases hrel with
    | @some _ a hrow =>
      obtain ⟨st, hst, hmirrors⟩ := hscanned.followerScanState hh hm hn
      obtain ⟨axis, haxis, hfound⟩ := hdig _ (cord name) hins
      have hproof : proofAxis env (runState env.toEnv
          (before.filterMap fun i => (tasks i).input)).accumulator (cord name) = .ok axis := by
        unfold proofAxis
        rw [nameKey_eq hh]
        exact haxis
      obtain ⟨l, hsection, rfl, rfl, hproofAxis, hsnapshot⟩ :=
        accumulatorSection_found hn hseeded hanswer hst hproof walletExport
      rw [hsection] at hrun
      obtain ⟨-, rfl⟩ := Prod.mk.inj hrun
      refine ⟨_, _, rfl, rfl, rfl, ⟨hrow.owner, ?_, hrow.claimHeight, ?_⟩, ?_, ?_,
        hsnapshot⟩
      · exact ⟨_, hexDecodeEven_hexEncode _, hrow.txHash⟩
      · exact ⟨_, hexDecodeEven_hexEncode _, hrow.blockDigest⟩
      · show l.scanState.lastProvedHeight.toNat + 1 = _
        have hpos : runBlocks env.toEnv (before.filterMap fun i => (tasks i).input) ≠ [] := by
          intro hnil
          rw [hnil] at hq
          cases hq
        have hlength := List.length_pos_of_ne_nil hpos
        rw [hmirrors.height, (runInv hh hm _).height, cursorHeight, if_neg hpos]
        omega
      · obtain ⟨e, he⟩ := registryAnswer_row hn hanswer
        have hview := (get_eq hh hm (hins.built hh hm) (cord name)).symm.trans he
        have hmem := (hins.mem_tap hh hm _ e).mpr ⟨keyOf_based hh _, Except.ok.inj hview⟩
        show (l.proofAxis.map hexEncode).isSome
        rw [Option.isSome_map, hproofAxis]
        exact hfound.mpr ⟨e, hmem⟩

end

/-- A poke with the block that registers a name, and a lookup of the name. -/
def paidTasks (isLookup : Bool) : ServerTask :=
  if isLookup then .lookup "a.nock" true else .poke (paidBlockAt 63000).noun

/-- The lookup comes after the poke. -/
def paidSchedule : List (Turn Bool) :=
  [.acquire false, .access false, .release false] ++
    [.acquire true, .access true, .access true, .access true, .access true, .access true,
      .release true]

/-- The sample kernel, whose maps are lists, with the axes of the items of a list. -/
def digEnv : PeekEnv (List (NnsNameKey × NnsAccumulatorEntry)) Unit :=
  { samplePeekEnv with
    dig := fun acc k => .ok ((acc.findIdx? fun row => row.1 = k).map fun i => 2 ^ (i + 2) - 2) }

theorem digEnv_digLaw : DigLaw digEnv := by
  intro acc name _
  refine ⟨_, rfl, ?_⟩
  rw [Option.isSome_map, List.findIdx?_isSome, List.any_eq_true]
  constructor
  · rintro ⟨⟨k, e⟩, hmem, hk⟩
    obtain rfl : k = _ := of_decide_eq_true hk
    exact ⟨e, hmem⟩
  · rintro ⟨e, hmem⟩
    exact ⟨_, hmem, decide_eq_true rfl⟩

theorem paidTasks_sends : SendsChain digEnv paidChain paidTasks := by
  intro i input b hinput hb
  cases i with
  | true => cases hinput
  | false =>
    obtain rfl := Option.some.inj hinput
    rw [softCause_scanBlock] at hb
    obtain rfl := Cause.scanBlock.inj (Option.some.inj hb)
    exact ⟨63000, by decide, rfl⟩

theorem lookups_answer_paid_eve : ∃ r v,
    (final turn (server sampleCrates digEnv paidTasks) paidSchedule).task true
      = .finished (.answered (.ok r)) ∧
    r.value = some v ∧ cord v.owner = cord "eve" ∧ v.claimHeight = 63000 ∧
    r.lastProvedHeight = 63000 := by
  have hsome : (taskResponse ((final turn (server sampleCrates digEnv paidTasks)
      paidSchedule).task true)).isSome = true := by
    decide +kernel
  obtain ⟨r, hr⟩ := Option.isSome_iff_exists.mp hsome
  have hfinished := finished_of_taskResponse hr
  obtain ⟨inputs, k, hsaid, hsees, hlog, hanswers⟩ := (lookups_answer_paid sampleCrates_nounLaws
    sampleCrates_limbLaws sampleCrates_zsetLaws sampleEnv_hashLaws sampleEnv_mapLaws
    digEnv_digLaw paidChain paidServed_lists paidTasks paidTasks_sends paidSchedule true "a.nock"
    true rfl (.ok r) hfinished).2 (by decide)
  -- the poke has finished when the lookup takes the mutex
  have hpokes : finishedPokes sampleCrates digEnv paidTasks paidSchedule
        = [(paidBlockAt 63000).noun] ∧
      finishedPokes sampleCrates digEnv paidTasks (paidSchedule.take 3)
        = [(paidBlockAt 63000).noun] := by
    decide +kernel
  have hinputs : inputs = [(paidBlockAt 63000).noun] := by
    have hfirst := hsees (paidSchedule.take 3) (List.take_prefix _ _) fun a ha => by cases ha
    rw [hpokes.2] at hfirst
    rw [hpokes.1] at hsaid
    exact (hsaid.eq_of_length_le hfirst.length_le)
  have hlength : (runBlocks sampleEnv [(paidBlockAt 63000).noun]).length = 1 := by
    decide +kernel
  obtain rfl : k = 1 := by
    rw [← paidChain.length_log k, ← hlog, hinputs]
    exact hlength
  have hpaid : paidChain.paid 1 = [(63000, paidClaim)] := by decide +kernel
  rw [hpaid] at hanswers
  obtain ⟨resp, v, hresp, -, hvalue, hshows, hheight, -⟩ :=
    (hanswers (by decide +kernel)).2 (63000, paidClaim) rfl
  obtain rfl := Except.ok.inj hresp
  refine ⟨r, v, hfinished, hvalue, hshows.owner, hshows.claimHeight, ?_⟩
  exact UInt64.toNat_inj.mp (Nat.succ.inj hheight)

end NnsVerified.Hull
