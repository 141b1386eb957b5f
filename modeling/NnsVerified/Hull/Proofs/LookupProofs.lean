import NnsVerified.Hull.Lookup
import NnsVerified.Hull.Proofs.EncodingProofs
import NnsVerified.Hull.Proofs.FollowerProofs
import NnsVerified.Hull.Sample
import NnsVerified.Kernel.Proofs.SnapshotProofs

/-!
# Lookups

A lookup reads the kernel five times under the mutex, so all that it answers is of one state of the
kernel, and the snapshot, the root and the row that it exports fit together.
-/

namespace NnsVerified.Hull

open NnsVerified.Hoon NnsVerified.Library NnsVerified.Kernel

variable {H Z L Acc Vesl : Type} {c : Crates H Z L} {env : PeekEnv Acc Vesl} {s t : State Acc Vesl}

/-! ## The paths -/

section

variable (hn : c.NounLaws)

include hn

theorem namePeek_eq (tagStr name : String) : namePeek c tagStr name
    = Noun.tuple (.atom (cord tagStr)) [.atom (cord name), .atom 0] := by
  unfold namePeek
  rw [hn.makeTagIn_eq, hn.makeCordIn_eq]
  rfl

theorem buildAccumulatorPeek_eq (name : String) :
    buildAccumulatorPeek c name = (Peek.accumulator (cord name)).path := namePeek_eq hn _ _

theorem buildAccumulatorProofPeek_eq (name : String) :
    buildAccumulatorProofPeek c name = (Peek.accumulatorProof (cord name)).path := namePeek_eq hn _ _

theorem buildAccumulatorJamPeek_eq : buildAccumulatorJamPeek c = Peek.accumulatorJam.path :=
  singleTagPeek_eq hn _

end

/-- What follows a peek under the lock runs on the same state, with the decoded value at its
path. -/
theorem askKernel_bind_ok {α β : Type} {what : String} {p : Peek}
    {decode : Noun → Except String α} {f : α → ExceptT ApiError (Critical (State Acc Vesl)) β} {b : β}
    (h : (askKernel env what p.path decode >>= f).run.run s = (t, .ok b)) :
    ∃ value a, peekValue env s p = .ok value ∧
      decode (Noun.tuple (.atom 0) [.atom 0, value]) = .ok a ∧ (f a).run.run s = (t, .ok b) := by
  obtain ⟨u, a, hask, hrest⟩ := Critical.run_bind_ok h
  obtain ⟨rfl, hvalue⟩ := Critical.run_ask_ok hask
  obtain ⟨answer, hanswer, hdecode⟩ := bind_eq_ok hvalue
  obtain ⟨value, hvalue, rfl⟩ := peekNoun_path_ok (mapError_eq_ok.mp hanswer)
  exact ⟨value, a, hvalue, mapError_eq_ok.mp hdecode, hrest⟩

/-! ## The decoders -/

/-- The row that the hull holds is a row of the kernel, its fields in any width. -/
structure MirrorsEntry (a : AccumulatorEntry) (e : NnsAccumulatorEntry) : Prop where
  owner : cord a.owner = e.owner
  txHash : leValue a.txHash = e.txHash
  claimHeight : a.claimHeight.toNat = e.claimHeight
  blockDigest : leValue a.blockDigest = e.blockDigest

theorem asNeBytes_ok (hn : c.NounLaws) {a : Nat} {bytes : List UInt8}
    (h : asNeBytes c (.atom a) = .ok bytes) : leValue bytes = a := by
  obtain rfl := Except.ok.inj h
  exact hn.leValue_asNeBytes a

theorem asU64_ok (hn : c.NounLaws) {a : Nat} {n : UInt64} (h : asU64 c (.atom a) = .ok n) :
    n.toNat = a := by
  unfold asU64 at h
  dsimp only at h
  rw [hn.asU64_eq] at h
  split at h
  · rename_i hlt
    obtain rfl := Except.ok.inj h
    exact UInt64.toNat_ofNat_of_lt' hlt
  · cases h

theorem decodeAccumulatorEntry_ok (hn : c.NounLaws) {entry : Option NnsAccumulatorEntry}
    {a : AccumulatorEntry}
    (h : decodeAccumulatorEntry c (Noun.tuple (.atom 0)
      [.atom 0, unitNoun (entry.map NnsAccumulatorEntry.noun)]) = .ok (some a)) :
    ∃ e, entry = some e ∧ MirrorsEntry a e := by
  cases entry with
  | none => cases h
  | some e =>
    refine ⟨e, rfl, ?_⟩
    change (do
      let name ← asCord c (.atom e.name)
      let owner ← asCord c (.atom e.owner)
      let txHash ← asNeBytes c (.atom e.txHash)
      let claimHeight ← (asU64 c (.atom e.claimHeight)).mapError fun _ =>
        "accumulator: claim_height overflows u64"
      let blockDigest ← asNeBytes c (.atom e.blockDigest)
      return some (⟨name, owner, txHash, claimHeight, blockDigest⟩ : AccumulatorEntry))
        = .ok (some a) at h
    obtain ⟨name, -, h⟩ := bind_eq_ok h
    obtain ⟨owner, howner, h⟩ := bind_eq_ok h
    obtain ⟨txHash, htx, h⟩ := bind_eq_ok h
    obtain ⟨claimHeight, hheight, h⟩ := bind_eq_ok h
    obtain ⟨blockDigest, hdigest, h⟩ := bind_eq_ok h
    obtain rfl := Option.some.inj (Except.ok.inj h)
    exact {
      owner := cord_asCord hn howner
      txHash := asNeBytes_ok hn htx
      claimHeight := asU64_ok hn (mapError_eq_ok.mp hheight)
      blockDigest := asNeBytes_ok hn hdigest }

theorem decodeAccumulatorJam_ok (hn : c.NounLaws) {jam : Nat} {bytes : List UInt8}
    (h : decodeAccumulatorJam c (Noun.tuple (.atom 0) [.atom 0, .atom jam]) = .ok bytes) :
    leValue bytes = jam := asNeBytes_ok hn h

/-- The scan state that the hull holds is the cursor of the kernel and the root of its
accumulator. -/
theorem decodeScanState_ok (hn : c.NounLaws) {value : Noun} {st : ScanState}
    (hvalue : peekScanState env.toEnv s = .ok value)
    (h : decodeScanState c (Noun.tuple (.atom 0) [.atom 0, value]) = .ok st) :
    Mirrors st s ∧ rootAtom env.toEnv s.accumulator = .ok (leValue st.accumulatorRoot) := by
  have hanswer : scanStateAnswer env.toEnv s = .ok (Noun.tuple (.atom 0) [.atom 0, value]) := by
    unfold scanStateAnswer
    rw [hvalue]
    rfl
  refine ⟨(decodeScanState_answer hn hanswer).1 st h, ?_⟩
  obtain ⟨root, hroot, hvalue⟩ := bind_eq_ok hvalue
  obtain rfl := Except.ok.inj hvalue
  obtain ⟨-, -, rfl⟩ := (decodeScanState_eq_ok hn _ _ root _ st).mp h
  rw [hroot, hn.leValue_asNeBytes]

/-! ## The section -/

/-- What a lookup has read is of one state. -/
structure Reads (env : PeekEnv Acc Vesl) (s : State Acc Vesl) (name : String) (walletExport : Bool)
    (l : Lookup) : Prop where
  entry : ∃ e, get env.toEnv s.accumulator (cord name) = .ok (some e) ∧ MirrorsEntry l.entry e
  cursor : Mirrors l.scanState s
  root : rootAtom env.toEnv s.accumulator = .ok (leValue l.scanState.accumulatorRoot)
  snapshot : walletExport = true → ∃ bytes, l.accumulatorSnapshotHex = some (hexEncode bytes) ∧
    leValue bytes = env.jam (env.accumulatorNoun s.accumulator)

theorem snapshotSection_ok (hn : c.NounLaws) {walletExport : Bool} {snapshot : Option String}
    (h : (snapshotSection c env walletExport).run.run s = (t, .ok snapshot)) :
    t = s ∧ (walletExport = true → ∃ bytes, snapshot = some (hexEncode bytes) ∧
      leValue bytes = env.jam (env.accumulatorNoun s.accumulator)) := by
  unfold snapshotSection at h
  cases walletExport with
  | false => exact ⟨(Critical.run_pure_ok h).1, fun hexport => absurd hexport (by simp)⟩
  | true =>
    rw [if_pos rfl, buildAccumulatorJamPeek_eq hn] at h
    obtain ⟨value, jam, hvalue, hdecode, h⟩ := askKernel_bind_ok h
    obtain rfl := Except.ok.inj hvalue
    obtain ⟨hstate, rfl⟩ := Critical.run_pure_ok h
    exact ⟨hstate, fun _ => ⟨jam, rfl, decodeAccumulatorJam_ok hn hdecode⟩⟩

/-- A lookup that succeeds has read everything from the state on which it took the mutex. -/
theorem accumulatorSection_ok (hn : c.NounLaws) {name : String} {walletExport : Bool} {l : Lookup}
    (h : (accumulatorSection c env name walletExport).run.run s = (t, .ok l)) :
    Reads env s name walletExport l := by
  unfold accumulatorSection at h
  rw [buildAccumulatorPeek_eq hn, buildAccumulatorProofPeek_eq hn, buildScanStatePeek_eq hn,
    buildRecursiveProofPeek_eq hn] at h
  obtain ⟨entryValue, entry, hentryValue, hentry, h⟩ := askKernel_bind_ok h
  obtain ⟨found, hfound, hentryValue⟩ := bind_eq_ok hentryValue
  obtain rfl := Except.ok.inj hentryValue
  cases entry with
  | none => cases congrArg Prod.snd h
  | some entry =>
    obtain ⟨e, rfl, hmirrors⟩ := decodeAccumulatorEntry_ok hn hentry
    obtain ⟨-, proofAxis, -, -, h⟩ := askKernel_bind_ok h
    obtain ⟨scanValue, scanState, hscanValue, hscan, h⟩ := askKernel_bind_ok h
    obtain ⟨hcursor, hroot⟩ := decodeScanState_ok hn hscanValue hscan
    obtain ⟨u, snapshot, hsnapshot, h⟩ := Critical.run_bind_ok h
    obtain ⟨-, hsnapshot⟩ := snapshotSection_ok hn hsnapshot
    obtain ⟨-, recursiveProof, -, -, h⟩ := askKernel_bind_ok h
    obtain ⟨-, rfl⟩ := Critical.run_pure_ok h
    exact ⟨⟨e, hfound, hmirrors⟩, hcursor, hroot, hsnapshot⟩

/-- A lookup leaves the kernel. -/
theorem accumulatorSection_readOnly (c : Crates H Z L) (env : PeekEnv Acc Vesl) (name : String)
    (walletExport : Bool) :
    Critical.ReadOnly (accumulatorSection c env name walletExport).run := by
  refine Critical.readOnly_bind (Critical.readOnly_ask _) fun entry => ?_
  cases entry with
  | none => exact fun _ => rfl
  | some entry =>
    refine Critical.readOnly_bind (Critical.readOnly_ask _) fun proofAxis => ?_
    refine Critical.readOnly_bind (Critical.readOnly_ask _) fun scanState => ?_
    refine Critical.readOnly_bind ?_ fun snapshot => ?_
    · unfold snapshotSection
      cases walletExport with
      | false => exact fun _ => rfl
      | true => exact Critical.readOnly_bind (Critical.readOnly_ask _) fun jam => fun _ => rfl
    · exact Critical.readOnly_bind (Critical.readOnly_ask _) fun recursiveProof => fun _ => rfl

/-! ## Schedules -/

/-- The tasks of the server, one after the other, poke the kernel with their inputs. -/
theorem serial_server {ι : Type} (tasks : ι → ServerTask) (log : List ι) :
    serial (fun i => (tasks i).start c env) (fresh env.toEnv) log
      = runState env.toEnv (log.filterMap fun i => (tasks i).input) := by
  induction log using List.reverseRecOn with
  | nil => rfl
  | append_singleton log i ih =>
    rw [serial_concat, List.filterMap_append, ih]
    cases htask : tasks i with
    | poke input =>
      simp only [List.filterMap_cons, htask, ServerTask.input, List.filterMap_nil]
      rw [runState_snoc]
      rfl
    | lookup name walletExport =>
      simp only [List.filterMap_cons, htask, ServerTask.input, List.filterMap_nil, List.append_nil]
      unfold ServerTask.start accumulatorHandler
      dsimp only
      split
      · rename_i p hp
        split at hp
        · cases hp
        · obtain rfl := Task.waiting.inj hp
          rw [Critical.run_bind]
          exact accumulatorSection_readOnly c env name walletExport _
      · rfl

/-- A response describes a state of the kernel: its row is the one that the kernel finds under the
name, and the cursor, the root and the snapshot are those of the state. -/
structure Describes (env : PeekEnv Acc Vesl) (s : State Acc Vesl) (r : AccumulatorLookupResponse) :
    Prop where
  value : ∃ v e txHash blockDigest, r.value = some v ∧
    get env.toEnv s.accumulator (cord r.name) = .ok (some e) ∧ cord v.owner = e.owner ∧
    hexDecodeEven v.txHash = .ok txHash ∧ leValue txHash = e.txHash ∧
    v.claimHeight.toNat = e.claimHeight ∧
    hexDecodeEven v.blockDigest = .ok blockDigest ∧ leValue blockDigest = e.blockDigest
  root : ∃ root, hexDecodeEven r.accumulatorRoot = .ok root ∧
    rootAtom env.toEnv s.accumulator = .ok (leValue root)
  snapshot : ∃ hex jam, r.accumulatorSnapshotHex = some hex ∧ hexDecodeEven hex = .ok jam ∧
    leValue jam = env.jam (env.accumulatorNoun s.accumulator)
  height : r.lastProvedHeight.toNat = s.lastProvedHeight
  digest : ∃ digest, hexDecodeEven r.lastProvedDigest = .ok digest ∧
    leValue digest = s.lastProvedDigest

theorem Reads.describes {name : String} {l : Lookup} (h : Reads env s name true l) :
    Describes env s (lookupResponse name l) where
  value := by
    obtain ⟨e, hfound, hmirrors⟩ := h.entry
    exact ⟨_, e, _, _, rfl, hfound, hmirrors.owner, hexDecodeEven_hexEncode _, hmirrors.txHash,
      hmirrors.claimHeight, hexDecodeEven_hexEncode _, hmirrors.blockDigest⟩
  root := ⟨_, hexDecodeEven_hexEncode _, h.root⟩
  snapshot := by
    obtain ⟨bytes, hhex, hjam⟩ := h.snapshot rfl
    exact ⟨_, bytes, hhex, hexDecodeEven_hexEncode _, hjam⟩
  height := h.cursor.height
  digest := ⟨_, hexDecodeEven_hexEncode _, h.cursor.digest⟩

/-- A finished lookup was asked for an invalid name, or has run its section on the state that the
pokes before it have made. -/
theorem lookup_ran {ι : Type} [DecidableEq ι] {tasks : ι → ServerTask}
    {schedule : List (Turn ι)} {i : ι} {name : String} {walletExport : Bool}
    {r : Except ApiError AccumulatorLookupResponse} (htask : tasks i = .lookup name walletExport)
    (hr : (final turn (server c env tasks) schedule).task i = .finished (.answered r)) :
    isValidName name = false ∧ r = .error (badRequest "invalid name") ∨
    isValidName name = true ∧ ∃ before t result,
      before ++ [i] <+: history turn (server c env tasks) schedule ∧
      (accumulatorSection c env name walletExport).run.run
        (runState env.toEnv (before.filterMap fun i => (tasks i).input)) = (t, result) ∧
      r = result.map (lookupResponse name) := by
  have hstart : ∀ j q, (server c env tasks).task j ≠ .running q := by
    intro j q
    show (tasks j).start c env ≠ .running q
    cases tasks j with
    | poke input => exact fun h => by cases h
    | lookup name walletExport =>
      show accumulatorHandler c env name walletExport ≠ .running q
      unfold accumulatorHandler
      split <;> exact fun h => by cases h
  have hserial := serial_schedule _ (fresh env.toEnv) hstart schedule
  have haccounted := hserial.accounted i
  rw [show (final turn ⟨fresh env.toEnv, none, (server c env tasks).task⟩ schedule).task i
    = .finished (.answered r) from hr] at haccounted
  have hhandler : (server c env tasks).task i = accumulatorHandler c env name walletExport := by
    show (tasks i).start c env = _
    rw [htask]
    rfl
  rcases haccounted with hdirect | ⟨p, before, hp, hbefore, hresult⟩
  · -- an invalid name is answered with an error
    rw [hhandler, accumulatorHandler] at hdirect
    split at hdirect
    · rename_i hname
      refine Or.inl ⟨by simpa using hname, ?_⟩
      exact (ServerResult.answered.inj (Task.finished.inj hdirect)).symm
    · cases hdirect
  · rw [hhandler, accumulatorHandler] at hp
    split at hp
    · cases hp
    · rename_i hname
      obtain rfl := Task.waiting.inj hp
      rw [show serial (server c env tasks).task (fresh env.toEnv) before
        = runState env.toEnv (before.filterMap fun i => (tasks i).input) from
          serial_server tasks before, Critical.run_bind] at hresult
      generalize hrun : (accumulatorSection c env name walletExport).run.run
        (runState env.toEnv (before.filterMap fun i => (tasks i).input)) = ran at hresult
      obtain ⟨t, result⟩ := ran
      exact Or.inr ⟨by simpa using hname, before, t, result, hbefore, hrun,
        ServerResult.answered.inj hresult⟩

/-- A finished lookup with a response has run its section on the state that the pokes before it have
made. -/
theorem lookup_section {ι : Type} [DecidableEq ι] {tasks : ι → ServerTask}
    {schedule : List (Turn ι)} {i : ι} {name : String} {walletExport : Bool}
    {r : AccumulatorLookupResponse} (htask : tasks i = .lookup name walletExport)
    (hr : (final turn (server c env tasks) schedule).task i = .finished (.answered (.ok r))) :
    isValidName name = true ∧ ∃ inputs t l, inputs <+: finishedPokes c env tasks schedule ∧
      (accumulatorSection c env name walletExport).run.run (runState env.toEnv inputs) = (t, .ok l) ∧
      r = lookupResponse name l := by
  rcases lookup_ran htask hr with ⟨-, herr⟩ | ⟨hname, before, t, result, hbefore, hrun, hresult⟩
  · cases herr
  · cases result with
    | error e => cases hresult
    | ok l =>
      refine ⟨hname, _, t, l, ?_, hrun, Except.ok.inj hresult⟩
      exact ((List.prefix_append before [i]).trans hbefore).filterMap _

/-- A finished lookup describes the state that the pokes before it have made. -/
theorem lookup_describes (hn : c.NounLaws) {ι : Type} [DecidableEq ι] {tasks : ι → ServerTask}
    {schedule : List (Turn ι)} {i : ι} {name : String} {r : AccumulatorLookupResponse}
    (htask : tasks i = .lookup name true)
    (hr : (final turn (server c env tasks) schedule).task i = .finished (.answered (.ok r))) :
    r.name = name ∧ ∃ inputs, inputs <+: finishedPokes c env tasks schedule ∧
      Describes env (runState env.toEnv inputs) r := by
  obtain ⟨-, inputs, t, l, hinputs, hrun, rfl⟩ := lookup_section htask hr
  exact ⟨rfl, inputs, hinputs, (accumulatorSection_ok hn hrun).describes⟩

/-! ## Verification of a response -/

theorem buildVerifyAccumulatorSnapshotPoke_eq (hn : c.NounLaws) (expectedRoot accJam : List UInt8)
    (name owner : String) (txHash : List UInt8) (claimHeight : UInt64) (blockDigest : List UInt8) :
    buildVerifyAccumulatorSnapshotPoke c expectedRoot accJam name owner txHash claimHeight blockDigest
      = (⟨leValue expectedRoot, leValue accJam, ⟨cord name, cord owner, leValue txHash,
          claimHeight.toNat, leValue blockDigest⟩⟩ : VerifySnapshot).noun := by
  unfold buildVerifyAccumulatorSnapshotPoke
  rw [hn.makeTagIn_eq, hn.makeAtomIn_eq, hn.makeAtomIn_eq, hn.makeAtomIn_eq, hn.makeAtomIn_eq,
    hn.makeCordIn_eq, hn.makeCordIn_eq, hn.atomFromU64_eq]
  rfl

/-- No row of the accumulator has the key of a name without having the name. -/
def KeyFree (env : Env Acc Vesl) (acc : Acc) (name : Nat) : Prop :=
  ∀ e ∈ rows env acc, keyOf env e.name = keyOf env name → e.name = name

/-- The parts of a response that describes a state verify against each other. -/
theorem Describes.verified (hn : c.NounLaws) (hh : env.HashLaws) (hm : env.MapLaws)
    (hmold : env.MoldLaws) (hjam : env.JamLaws) {inputs : List Noun} {r : AccumulatorLookupResponse}
    (h : Describes env (runState env.toEnv inputs) r) :
    ∃ input, responsePoke c r = some input ∧
      (KeyFree env.toEnv (runState env.toEnv inputs).accumulator (cord r.name) →
        ∀ s, poke env.toEnv s input = .ok ([.accumulatorSnapshotVerifyResult true], s)) := by
  obtain ⟨v, e, txHash, blockDigest, hv, hfound, howner, htx, htxValue, hheight, hbd, hbdValue⟩ :=
    h.value
  obtain ⟨root, hroot, hrootValue⟩ := h.root
  obtain ⟨hex, jam, hhex, hdecode, hjamValue⟩ := h.snapshot
  have hins := (runInv hh hm inputs).inserted
  have hbuilt := hins.built hh hm
  have hpoke : responsePoke c r = some (buildVerifyAccumulatorSnapshotPoke c root jam r.name v.owner
      txHash v.claimHeight blockDigest) := by
    simp [responsePoke, hv, hhex, hroot, hdecode, htx, hbd, Except.toOption]
  refine ⟨_, hpoke, fun hfree s => ?_⟩
  -- the row that is found under the name has the name
  have hview := (get_eq hh hm hbuilt (cord r.name)).symm.trans hfound
  obtain ⟨hrow, hkey⟩ := (hins.view_eq_some hh hm _ e).mp (Except.ok.inj hview)
  have hname := hfree e hrow hkey
  have hentry : (⟨cord r.name, cord v.owner, leValue txHash, v.claimHeight.toNat,
      leValue blockDigest⟩ : NnsAccumulatorEntry) = e := by
    rw [← hname, howner, htxValue, hheight, hbdValue]
  have hcue : env.cue (leValue jam)
      = .ok (env.accumulatorNoun (runState env.toEnv inputs).accumulator) := by
    rw [hjamValue]
    exact hjam _
  rw [buildVerifyAccumulatorSnapshotPoke_eq hn, hentry,
    poke_of_softCause s (softCause_verifyAccumulatorSnapshot _ _)]
  rw [← hname] at hfound
  have hverify : verifyAccumulatorSnapshot env.toEnv s ⟨leValue root, leValue jam, e⟩
      = .ok ([.accumulatorSnapshotVerifyResult (decide (some e = some e))], s) :=
    verifyAccumulatorSnapshot_eq hcue (hmold _ hbuilt) hrootValue hfound
  rw [decide_eq_true rfl] at hverify
  exact hverify

/-- In every schedule of pokes and lookups, every exported response describes one state that the
pokes of the schedule have made, and its parts verify against each other. -/
theorem wallet_export_consistent (hn : c.NounLaws) (hh : env.HashLaws) (hm : env.MapLaws)
    (hmold : env.MoldLaws) (hjam : env.JamLaws) {ι : Type} [DecidableEq ι] (tasks : ι → ServerTask)
    (schedule : List (Turn ι)) (i : ι) (name : String) (htask : tasks i = .lookup name true)
    (r : AccumulatorLookupResponse)
    (hr : (final turn (server c env tasks) schedule).task i = .finished (.answered (.ok r))) :
    r.name = name ∧ ∃ inputs, inputs <+: finishedPokes c env tasks schedule ∧
      Describes env (runState env.toEnv inputs) r ∧
      ∃ input, responsePoke c r = some input ∧
        (KeyFree env.toEnv (runState env.toEnv inputs).accumulator (cord name) →
          ∀ s, poke env.toEnv s input = .ok ([.accumulatorSnapshotVerifyResult true], s)) := by
  obtain ⟨rfl, inputs, hinputs, hdescribes⟩ := lookup_describes hn htask hr
  exact ⟨rfl, inputs, hinputs, hdescribes, hdescribes.verified hn hh hm hmold hjam⟩

/-- A poke with a block that registers the name, a lookup of the name, and a poke with the next
block. -/
def lookupTasks : Fin 3 → ServerTask
  | 0 => .poke contestedBlock.noun
  | 1 => .lookup "a.nock" true
  | 2 => .poke (⟨contestedBlock.pageDigest, 63001, 8, [], []⟩ : ScanBlock).noun

/-- The second poke tries to take the mutex in the middle of the lookup. -/
def lookupSchedule : List (Turn (Fin 3)) :=
  [.acquire 0, .access 0, .release 0, .acquire 1, .access 1, .access 1, .acquire 2, .access 2,
    .access 1, .access 1, .access 1, .release 1, .acquire 2, .access 2, .release 2]

/-- The response of a finished lookup. -/
def taskResponse {σ : Type} : Task σ ServerResult → Option AccumulatorLookupResponse
  | .finished (.answered (.ok r)) => some r
  | _ => none

theorem finished_of_taskResponse {σ : Type} {task : Task σ ServerResult}
    {r : AccumulatorLookupResponse} (h : taskResponse task = some r) :
    task = .finished (.answered (.ok r)) := by
  unfold taskResponse at h
  split at h
  · obtain rfl := Option.some.inj h
    rfl
  · cases h

/-- After no poke of that schedule does a row have the key of the name without having the name. -/
theorem lookupRun_keyFree {inputs : List Noun}
    (h : inputs <+: finishedPokes sampleCrates samplePeekEnv lookupTasks lookupSchedule) :
    KeyFree samplePeekEnv.toEnv (runState samplePeekEnv.toEnv inputs).accumulator
      (cord "a.nock") := by
  have hall : ∀ before ∈ (finishedPokes sampleCrates samplePeekEnv lookupTasks
      lookupSchedule).inits, KeyFree samplePeekEnv.toEnv
      (runState samplePeekEnv.toEnv before).accumulator (cord "a.nock") := by
    unfold KeyFree
    decide +kernel
  exact hall inputs ((List.mem_inits _ _).mpr h)

theorem wallet_export_consistent_interleaved : ∃ r,
    (final turn (server sampleCrates samplePeekEnv lookupTasks) lookupSchedule).task 1
      = .finished (.answered (.ok r)) ∧
    r.name = "a.nock" ∧
    ∃ inputs, inputs <+: finishedPokes sampleCrates samplePeekEnv lookupTasks lookupSchedule ∧
      Describes samplePeekEnv (runState samplePeekEnv.toEnv inputs) r ∧
      ∃ input, responsePoke sampleCrates r = some input ∧
        ∀ s, poke samplePeekEnv.toEnv s input
          = .ok ([.accumulatorSnapshotVerifyResult true], s) := by
  have hsome : (taskResponse ((final turn (server sampleCrates samplePeekEnv lookupTasks)
      lookupSchedule).task 1)).isSome = true := by
    decide +kernel
  obtain ⟨r, hr⟩ := Option.isSome_iff_exists.mp hsome
  have hfinished := finished_of_taskResponse hr
  obtain ⟨hname, inputs, hinputs, hdescribes, input, hinput, hverified⟩ :=
    wallet_export_consistent sampleCrates_nounLaws sampleEnv_hashLaws sampleEnv_mapLaws
      sampleEnv_moldLaws sampleEnv_jamLaws lookupTasks lookupSchedule 1 "a.nock" rfl r hfinished
  exact ⟨r, hfinished, hname, inputs, hinputs, hdescribes, input, hinput,
    hverified (lookupRun_keyFree hinputs)⟩

end NnsVerified.Hull
