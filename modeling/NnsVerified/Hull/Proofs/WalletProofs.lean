import NnsVerified.Hull.Proofs.LookupProofs
import NnsVerified.Hull.Proofs.RegistrationProofs
import NnsVerified.Hull.Proofs.VerdictProofs
import NnsVerified.Kernel.Proofs.TransitionProofs

/-!
# What the server answers, a wallet accepts

A wallet renames the fields of an exported response to those of a lookup bundle. The offline verifier
accepts the bundle, whatever else the server was doing, whenever its headers lead to the checkpoint.
The exception are owners with whitespace around them: the verifier trims the owner of the bundle, and
then asks the kernel for a row that is not there.
-/

namespace NnsVerified.Hull

open NnsVerified.Hoon NnsVerified.Library NnsVerified.Kernel LightVerify

variable {H Z L Acc Vesl : Type} {c : Crates H Z L} {env : PeekEnv Acc Vesl} {s t : State Acc Vesl}

/-- The bundle that a wallet makes of a response, with the headers that it has. -/
def lookupBundle (r : AccumulatorLookupResponse) (headers : List NockHeaderLink) :
    PathY4LookupBundle where
  name := r.name
  value := r.value.map fun v => ⟨v.owner, v.txHash, v.claimHeight, v.blockDigest⟩
  lastProvedHeight := r.lastProvedHeight
  lastProvedDigestHex := r.lastProvedDigest
  accumulatorRootHex := r.accumulatorRoot
  recursiveProofHex := r.recursiveProofHex
  recursiveSubjectJamHex := r.recursiveSubjectJamHex
  recursiveFormulaJamHex := r.recursiveFormulaJamHex
  accumulatorSnapshotJamHex := r.accumulatorSnapshotHex
  zInProof := none
  headersToCheckpoint := headers

/-- What the prover makes is a proof, and it verifies. -/
structure ProverLaws (env : Env Acc Vesl) : Prop where
  mold : ∀ {subj form proof br bh}, env.proveComputation subj form br bh = .ok (.ok proof) →
    env.clamProof proof = some proof
  complete : ∀ {subj form proof br bh}, env.proveComputation subj form br bh = .ok (.ok proof) →
    env.verify proof subj form = .ok true

/-! ## Texts -/

theorem noNul_of_asCord {n : Noun} {text : String} (h : asCord c n = .ok text) : NoNul text := by
  unfold asCord at h
  split at h
  · split at h
    · obtain rfl := Except.ok.inj h
      exact noNul_trimEndNul _
    · cases h
  · cases h

/-- Trimming a text changes its cord, unless there is nothing to trim. -/
theorem cord_trim_iff (hn : c.NounLaws) {text : String} (htext : NoNul text) :
    cord (trim text) = cord text ↔ trim text = text := by
  refine ⟨fun hcord => ?_, fun h => by rw [h]⟩
  have hcut : trimEndNul (trim text) = text := cord_inj_of_noNul hn (noNul_trimEndNul _) htext
    ((cord_trimEndNul _).trans hcord)
  have hshort : (trim text).toList.Sublist text.toList := by
    unfold trim
    rw [String.toList_ofList]
    exact (List.rdropWhile_prefix _ _).sublist.trans (List.dropWhile_sublist _)
  have hlong : text.toList.Sublist (trim text).toList := by
    rw [← congrArg String.toList hcut]
    unfold trimEndNul
    rw [String.toList_ofList]
    exact (List.rdropWhile_prefix _ _).sublist
  exact String.toList_inj.mp (hshort.antisymm hlong)

theorem trim_of_isValidName {name : String} (h : isValidName name = true) : trim name = name := by
  obtain ⟨front, hfront, -, hchars⟩ := (isValidName_iff name).mp h
  refine trim_of_forall fun ch hch => ?_
  rw [hfront, List.mem_append] at hch
  rcases hch with hch | hch
  · have hcode := (isNameChar_iff ch).mp (hchars ch hch)
    simp only [isWhitespace, Bool.or_eq_false_iff, Bool.and_eq_false_iff, decide_eq_false_iff_not]
    omega
  · have hsuffix : ".nock".toList = ['.', 'n', 'o', 'c', 'k'] := rfl
    rw [hsuffix] at hch
    simp only [List.mem_cons, List.not_mem_nil, or_false] at hch
    rcases hch with rfl | rfl | rfl | rfl | rfl <;> rfl

/-! ## What a lookup has read -/

/-- The owner and the proof of a lookup are those that the kernel holds. -/
structure Carries (env : PeekEnv Acc Vesl) (s : State Acc Vesl) (l : Lookup) : Prop where
  owner : NoNul l.entry.owner
  proof : ∀ rp, l.recursiveProof = some rp → ∃ proof subj form,
    s.recursiveProof = some (proof, subj, form) ∧ leValue rp.1 = env.jam proof ∧
    leValue rp.2.1 = env.jam subj ∧ leValue rp.2.2 = env.jam form

theorem noNul_owner {result : Noun} {a : AccumulatorEntry}
    (h : decodeAccumulatorEntry c result = .ok (some a)) : NoNul a.owner := by
  unfold decodeAccumulatorEntry at h
  obtain ⟨inner, -, h⟩ := bind_eq_ok h
  split at h
  · cases h
  · obtain ⟨entry, -, h⟩ := bind_eq_ok h
    obtain ⟨⟨name, rest⟩, -, h⟩ := bind_eq_ok h
    obtain ⟨⟨owner, rest⟩, -, h⟩ := bind_eq_ok h
    obtain ⟨⟨txHash, rest⟩, -, h⟩ := bind_eq_ok h
    obtain ⟨⟨claimHeight, blockDigest⟩, -, h⟩ := bind_eq_ok h
    obtain ⟨name, -, h⟩ := bind_eq_ok h
    obtain ⟨owner, howner, h⟩ := bind_eq_ok h
    obtain ⟨txHash, -, h⟩ := bind_eq_ok h
    obtain ⟨claimHeight, -, h⟩ := bind_eq_ok h
    obtain ⟨blockDigest, -, h⟩ := bind_eq_ok h
    obtain rfl := Option.some.inj (Except.ok.inj h)
    exact noNul_of_asCord howner

theorem decodeRecursiveProof_ok (hn : c.NounLaws) {value : Noun}
    {rp : List UInt8 × List UInt8 × List UInt8} (hvalue : peekValue env s .recursiveProof = .ok value)
    (h : decodeRecursiveProof c (Noun.tuple (.atom 0) [.atom 0, value]) = .ok (some rp)) :
    ∃ proof subj form, s.recursiveProof = some (proof, subj, form) ∧ leValue rp.1 = env.jam proof ∧
      leValue rp.2.1 = env.jam subj ∧ leValue rp.2.2 = env.jam form := by
  unfold peekValue at hvalue
  cases hstored : s.recursiveProof with
  | none =>
    rw [hstored] at hvalue
    obtain rfl := Except.ok.inj hvalue
    cases h
  | some stored =>
    obtain ⟨proof, subj, form⟩ := stored
    rw [hstored] at hvalue
    obtain rfl := Except.ok.inj hvalue
    obtain rfl := Option.some.inj (Except.ok.inj h)
    exact ⟨proof, subj, form, rfl, hn.leValue_asNeBytes _, hn.leValue_asNeBytes _,
      hn.leValue_asNeBytes _⟩

theorem accumulatorSection_carries (hn : c.NounLaws) {name : String} {walletExport : Bool}
    {l : Lookup} (h : (accumulatorSection c env name walletExport).run.run s = (t, .ok l)) :
    Carries env s l := by
  unfold accumulatorSection at h
  rw [buildAccumulatorPeek_eq hn, buildAccumulatorProofPeek_eq hn, buildScanStatePeek_eq hn,
    buildRecursiveProofPeek_eq hn] at h
  obtain ⟨entryValue, entry, -, hentry, h⟩ := askKernel_bind_ok h
  cases entry with
  | none => cases congrArg Prod.snd h
  | some entry =>
    obtain ⟨-, proofAxis, -, -, h⟩ := askKernel_bind_ok h
    obtain ⟨-, scanState, -, -, h⟩ := askKernel_bind_ok h
    obtain ⟨u, snapshot, hsnapshot, h⟩ := Critical.run_bind_ok h
    obtain ⟨hsame, -⟩ := snapshotSection_ok hn hsnapshot
    obtain ⟨value, recursiveProof, hvalue, hdecode, h⟩ := askKernel_bind_ok h
    rw [hsame] at hvalue
    obtain ⟨-, rfl⟩ := Critical.run_pure_ok h
    refine ⟨noNul_owner hentry, fun rp hrp => ?_⟩
    obtain rfl : recursiveProof = some rp := hrp
    exact decodeRecursiveProof_ok hn hvalue hdecode

/-! ## The checks of the verifier -/

/-- A jam is not blank. -/
theorem present_jam (hjammed : ∀ n, env.jam n ≠ 0) {bytes : List UInt8} {n : Noun}
    (h : leValue bytes = env.jam n) : present (some (hexEncode bytes)) = some (hexEncode bytes) := by
  refine present_hexEncode ?_
  rintro rfl
  exact hjammed n h.symm

/-- A proof that the prover has made verifies with its subject and formula. -/
theorem verifyStarkExplicit_proved {env : Env Acc Vesl} (hjam : env.JamLaws) (s : State Acc Vesl)
    {proof subj form : Noun} (hmold : env.clamProof proof = some proof)
    (hverify : env.verify proof subj form = .ok true) :
    verifyStarkExplicit env s (.atom (env.jam proof)) (.atom (env.jam subj)) (.atom (env.jam form))
      = .ok ([.verifyStarkResult true], s) := by
  unfold verifyStarkExplicit
  simp only [hjam proof, hjam subj, hjam form, mule_ok, ok_bind, hmold, orCrash, hverify]
  rfl

section

variable (hn : c.NounLaws) (hjam : env.JamLaws) (hjammed : ∀ n, env.jam n ≠ 0)
  {host : Host Acc Vesl} {cli : Cli} {kernelJam : List UInt8} {name : String} {l : Lookup}
  {headers : List NockHeaderLink}
  (hread : host.readFile cli.kernelJamPath = .ok kernelJam)
  (hsetup : host.setup kernelJam = .ok env.toEnv)

include hjam hjammed hread hsetup

/-- The proof of a lookup is confirmed. -/
theorem Carries.starkConfirmed (hprover : ProverLaws env.toEnv) {inputs : List Noun}
    (h : Carries env (runState env.toEnv inputs) l) {rp : List UInt8 × List UInt8 × List UInt8}
    (hrp : l.recursiveProof = some rp) :
    StarkConfirmed host cli (lookupBundle (lookupResponse name l) headers) := by
  obtain ⟨proof, subj, form, hstored, hproof, hsubj, hform⟩ := h.proof rp hrp
  obtain ⟨br, bh, hmade⟩ : ∃ br bh, env.proveComputation subj form br bh = .ok (.ok proof) := by
    have hproved : (runState env.toEnv inputs).recursiveProof = none ∨
        (runState env.toEnv inputs).StoresProved env.toEnv := storesProved inputs
    rcases hproved with hnone | ⟨proof', subj', form', br, bh, hstored', hmade⟩
    · rw [hstored] at hnone
      cases hnone
    · rw [hstored] at hstored'
      obtain ⟨rfl, hpair⟩ := Prod.mk.inj (Option.some.inj hstored')
      obtain ⟨rfl, rfl⟩ := Prod.mk.inj hpair
      exact ⟨br, bh, hmade⟩
  have hverified := verifyStarkExplicit_proved hjam (fresh env.toEnv) (hprover.mold hmade)
    (hprover.complete hmade)
  rw [← hproof, ← hsubj, ← hform] at hverified
  have hhex : ∀ field : List UInt8 × List UInt8 × List UInt8 → List UInt8,
      l.recursiveProof.map (fun rp => hexEncode (field rp)) = some (hexEncode (field rp)) := by
    intro field
    rw [hrp]
    rfl
  refine ⟨hexEncode rp.1, hexEncode rp.2.1, hexEncode rp.2.2, rp.1, rp.2.1, rp.2.2, kernelJam,
    env.toEnv, fresh env.toEnv, ?_, ?_, ?_, hexDecodeEven_hexEncode _, hexDecodeEven_hexEncode _,
    hexDecodeEven_hexEncode _, hread, hsetup, hverified⟩
  · show present (l.recursiveProof.map fun rp => hexEncode rp.1) = _
    rw [hhex fun rp => rp.1]
    exact present_jam hjammed hproof
  · show present (l.recursiveProof.map fun rp => hexEncode rp.2.1) = _
    rw [hhex fun rp => rp.2.1]
    exact present_jam hjammed hsubj
  · show present (l.recursiveProof.map fun rp => hexEncode rp.2.2) = _
    rw [hhex fun rp => rp.2.2]
    exact present_jam hjammed hform

include hn in
/-- The row of an exported lookup is confirmed unless its owner has whitespace around it. -/
theorem Reads.confirmed_iff (hh : env.HashLaws) (hm : env.MapLaws) (hmold : env.MoldLaws)
    {inputs : List Noun} (h : Reads env (runState env.toEnv inputs) name true l)
    (howner : NoNul l.entry.owner) (hname : trim name = name)
    (hfree : KeyFree env.toEnv (runState env.toEnv inputs).accumulator (cord name)) :
    (∃ e, Confirmed host cli (lookupBundle (lookupResponse name l) headers)
        l.scanState.accumulatorRoot e) ↔ trim l.entry.owner = l.entry.owner := by
  obtain ⟨e, hfound, hmirrors⟩ := h.entry
  obtain ⟨jam, hhex, hjamValue⟩ := h.snapshot rfl
  have hins := (runInv hh hm inputs).inserted
  have hbuilt := hins.built hh hm
  -- the row that is found under the name has the name
  have hview := (get_eq hh hm hbuilt (cord name)).symm.trans hfound
  obtain ⟨hrow, hkey⟩ := (hins.view_eq_some hh hm _ e).mp (Except.ok.inj hview)
  have hnamed := hfree e hrow hkey
  have hcue : env.cue (leValue jam)
      = .ok (env.accumulatorNoun (runState env.toEnv inputs).accumulator) := by
    rw [hjamValue]
    exact hjam _
  have hanswer : ∀ row : NnsAccumulatorEntry, row.name = cord name →
      verifyAccumulatorSnapshot env.toEnv (fresh env.toEnv)
          ⟨leValue l.scanState.accumulatorRoot, leValue jam, row⟩
        = .ok ([.accumulatorSnapshotVerifyResult (decide (some e = some row))],
          fresh env.toEnv) := by
    intro row hrowName
    refine verifyAccumulatorSnapshot_eq hcue (hmold _ hbuilt) h.root ?_
    rw [hrowName]
    exact hfound
  obtain ⟨row, hrowEq⟩ : ∃ row : NnsAccumulatorEntry, row = ⟨cord (trim name),
      cord (trim l.entry.owner), leValue l.entry.txHash, l.entry.claimHeight.toNat,
      leValue l.entry.blockDigest⟩ := ⟨_, rfl⟩
  have hclaimed : claimedRow (lookupBundle (lookupResponse name l) headers) = some row := by
    refine claimedRow_eq_some.mpr ⟨_, l.entry.txHash, l.entry.blockDigest, rfl, ?_, hrowEq⟩
    show parseEntryHex ⟨_, hexEncode l.entry.txHash, _, hexEncode l.entry.blockDigest⟩ = _
    simp [parseEntryHex, trim_hexEncode, hexDecodeEven_hexEncode]
  have hrowName : row.name = cord name := by rw [hrowEq, hname]
  have hrowOwner : row.owner = cord (trim l.entry.owner) := by rw [hrowEq]
  have hsame : e = row ↔ trim l.entry.owner = l.entry.owner := by
    rw [← cord_trim_iff hn howner, ← hrowOwner, hmirrors.owner]
    constructor
    · rintro rfl
      rfl
    · intro heq
      rw [hrowOwner] at heq
      rw [hrowEq, hname, heq, hmirrors.txHash, hmirrors.claimHeight, hmirrors.blockDigest, ← hnamed]
  have hsnapshot : present (lookupBundle (lookupResponse name l) headers).accumulatorSnapshotJamHex
      = some (hexEncode jam) := by
    show present l.accumulatorSnapshotHex = _
    rw [hhex]
    exact present_jam hjammed hjamValue
  rw [← hsame]
  constructor
  · rintro ⟨row', hrow', hex, accJam, kernelJam', env', t', hpresent, hdecode, hread', hsetup',
      hverify⟩
    obtain rfl := Option.some.inj (hclaimed.symm.trans hrow')
    obtain rfl := Option.some.inj (hsnapshot.symm.trans hpresent)
    obtain rfl := Except.ok.inj ((hexDecodeEven_hexEncode jam).symm.trans hdecode)
    obtain rfl := Except.ok.inj (hread.symm.trans hread')
    obtain rfl := Except.ok.inj (hsetup.symm.trans hsetup')
    rw [hanswer row hrowName] at hverify
    have heffects := (Prod.mk.inj (Except.ok.inj hverify)).1
    have hyes := Effect.accumulatorSnapshotVerifyResult.inj (List.singleton_inj.mp heffects)
    exact Option.some.inj (of_decide_eq_true hyes)
  · intro heq
    refine ⟨row, hclaimed, hexEncode jam, jam, kernelJam, env.toEnv, fresh env.toEnv, hsnapshot,
      hexDecodeEven_hexEncode jam, hread, hsetup, ?_⟩
    rw [hanswer row hrowName, decide_eq_true (congrArg some heq)]

end

/-- In every schedule of pokes and lookups, the offline verifier, on the kernel of the server and for a
checkpoint whose digest can be shown, accepts an exported response just when the headers of the wallet
lead to the checkpoint, the response has a proof or the flag allows its absence, and the owner has no
whitespace around it. -/
theorem wallet_accepts_lookups (hn : c.NounLaws) (hh : env.HashLaws) (hm : env.MapLaws)
    (hmold : env.MoldLaws) (hjam : env.JamLaws) (hjammed : ∀ n, env.jam n ≠ 0)
    (hprover : ProverLaws env.toEnv) {ι : Type} [DecidableEq ι] (tasks : ι → ServerTask)
    (schedule : List (Turn ι)) (i : ι) (name : String) (htask : tasks i = .lookup name true)
    (r : AccumulatorLookupResponse)
    (hr : (final turn (server c env tasks) schedule).task i = .finished (.answered (.ok r)))
    (host : Host Acc Vesl) (cli : Cli) (kernelJam : List UInt8)
    (hread : host.readFile cli.kernelJamPath = .ok kernelJam)
    (hsetup : host.setup kernelJam = .ok env.toEnv)
    (hcut : ∀ text ∈ cli.checkpointDigestHex, ¬CutsCharacter text) (headers : List NockHeaderLink) :
    ∃ v inputs, r.value = some v ∧ inputs <+: finishedPokes c env tasks schedule ∧
      (KeyFree env.toEnv (runState env.toEnv inputs).accumulator (cord name) →
        (exitCode (main c host cli (lookupBundle r headers)) = 0 ↔
          HeadersVerify host cli (lookupBundle r headers) ∧
          (r.recursiveProofHex.isSome = true ∨ cli.allowEmptyRecursive = true) ∧
          trim v.owner = v.owner)) := by
  obtain ⟨hvalid, inputs, t, l, hinputs, hrun, rfl⟩ := lookup_section htask hr
  have hreads := accumulatorSection_ok hn hrun
  have hcarries := accumulatorSection_carries hn hrun
  have hroot : hexDecodeEven (lookupBundle (lookupResponse name l) headers).accumulatorRootHex
      = .ok l.scanState.accumulatorRoot := hexDecodeEven_hexEncode _
  obtain ⟨jam, hhex, hjamValue⟩ := hreads.snapshot rfl
  have hsnapshot : present (lookupBundle (lookupResponse name l) headers).accumulatorSnapshotJamHex
      ≠ none := by
    show present l.accumulatorSnapshotHex ≠ none
    rw [hhex, present_jam hjammed hjamValue]
    exact Option.some_ne_none _
  refine ⟨⟨l.entry.owner, hexEncode l.entry.txHash, l.entry.claimHeight,
    hexEncode l.entry.blockDigest⟩, inputs, rfl, hinputs, fun hfree => ?_⟩
  have hrow : (∃ e, Confirmed host cli (lookupBundle (lookupResponse name l) headers)
      l.scanState.accumulatorRoot e) ↔ trim l.entry.owner = l.entry.owner :=
    hreads.confirmed_iff hn hjam hjammed hread hsetup hh hm hmold hcarries.owner
      (trim_of_isValidName hvalid) hfree
  rw [exitCode_main hn hroot]
  constructor
  · rintro ⟨⟨-, hheaders, hproof, hvalue⟩, -⟩
    refine ⟨hheaders, ?_, ?_⟩
    · rcases hproof with ⟨hex, -, -, -, -, -, -, -, -, hpresent, -⟩ | ⟨-, hrelax⟩
      · obtain ⟨text, htext, -⟩ := present_eq_some.mp hpresent
        exact Or.inl (Option.isSome_iff_exists.mpr ⟨text, htext⟩)
      · exact Or.inr hrelax
    · rcases hvalue with hnone | hconfirmed | ⟨hnone, -⟩
      · cases hnone
      · exact hrow.mp hconfirmed
      · exact absurd hnone hsnapshot
  · rintro ⟨hheaders, hproof, howner⟩
    refine ⟨⟨?_, hheaders, ?_, Or.inr (Or.inl (hrow.mpr howner))⟩, hcut⟩
    · intro nodes hnodes
      cases hnodes
    cases hrp : l.recursiveProof with
    | some rp =>
      exact Or.inl (hcarries.starkConfirmed hjam hjammed hread hsetup hprover hrp)
    | none =>
      have habsent : (lookupResponse name l).recursiveProofHex = none := by
        show l.recursiveProof.map _ = none
        rw [hrp]
        rfl
      rw [habsent] at hproof
      refine Or.inr ⟨?_, hproof.resolve_left (by simp)⟩
      show present (lookupResponse name l).recursiveProofHex = none
      rw [habsent]
      rfl

/-! ### A registry with a proof -/

/-- The sample kernel with a prover that succeeds, and with jams above `0`. -/
def walletEnv : PeekEnv (List (NnsNameKey × NnsAccumulatorEntry)) Unit :=
  { samplePeekEnv with
    jam := fun n => sampleJam n + 1
    cue := fun a => .ok (sampleCue a (a - 1))
    proveComputation := fun _ _ _ _ => .ok (.ok (.atom 1))
    verify := fun _ _ _ => .ok true }

theorem walletEnv_jamLaws : walletEnv.JamLaws := fun n =>
  congrArg Except.ok (sampleCue_sampleJam n _ (Nat.lt_succ_self _))

theorem walletEnv_proverLaws : ProverLaws walletEnv.toEnv where
  mold _ := rfl
  complete _ := rfl

/-- The proof of the genesis, a block that registers a name, and a lookup of the name. -/
def walletTasks : Fin 3 → ServerTask
  | 0 => .poke (buildProveRecursiveGenesisPoke sampleCrates)
  | 1 => .poke contestedBlock.noun
  | 2 => .lookup "a.nock" true

/-- The tasks one after the other, each with as many turns as the lookup needs. -/
def walletSchedule : List (Turn (Fin 3)) :=
  (List.finRange 3).flatMap fun i => .acquire i :: List.replicate 5 (.access i) ++ [.release i]

/-- A machine that boots the kernel of that server. -/
def walletHost : Host (List (NnsNameKey × NnsAccumulatorEntry)) Unit where
  readFile _ := .ok []
  setup _ := .ok walletEnv.toEnv
  debugFault _ := ""
  overflowChecks := true

/-- The headers of the wallet, from the block of the registry down to that before. -/
def walletHeaders : List NockHeaderLink := [⟨63000, "07", "05"⟩, ⟨62999, "05", "03"⟩]

/-- After no poke of that schedule does a row have the key of the name without having the name. -/
theorem walletRun_keyFree {inputs : List Noun}
    (h : inputs <+: finishedPokes sampleCrates walletEnv walletTasks walletSchedule) :
    KeyFree walletEnv.toEnv (runState walletEnv.toEnv inputs).accumulator (cord "a.nock") := by
  have hall : ∀ before ∈ (finishedPokes sampleCrates walletEnv walletTasks walletSchedule).inits,
      KeyFree walletEnv.toEnv (runState walletEnv.toEnv before).accumulator (cord "a.nock") := by
    unfold KeyFree
    decide +kernel
  exact hall inputs ((List.mem_inits _ _).mpr h)

theorem wallet_accepts_lookups_proved : ∃ r v,
    (final turn (server sampleCrates walletEnv walletTasks) walletSchedule).task 2
      = .finished (.answered (.ok r)) ∧
    r.recursiveProofHex.isSome = true ∧ r.value = some v ∧
    (exitCode (main sampleCrates walletHost checkpointCli (lookupBundle r walletHeaders)) = 0 ↔
      HeadersVerify walletHost checkpointCli (lookupBundle r walletHeaders) ∧
      (r.recursiveProofHex.isSome = true ∨ checkpointCli.allowEmptyRecursive = true) ∧
      trim v.owner = v.owner) ∧
    exitCode (main sampleCrates walletHost checkpointCli (lookupBundle r walletHeaders)) = 0 := by
  have hfields : ((taskResponse ((final turn (server sampleCrates walletEnv walletTasks)
      walletSchedule).task 2)).map fun r => (r.lastProvedHeight, r.lastProvedDigest,
        r.recursiveProofHex.isSome, r.value.map fun v => v.owner))
      = some (63000, "07", true, some "\x03") := by
    decide +kernel
  obtain ⟨r, hr, hfields⟩ := Option.map_eq_some_iff.mp hfields
  simp only [Prod.mk.injEq] at hfields
  obtain ⟨hheight, hdigest, hproof, howner⟩ := hfields
  have hfinished := finished_of_taskResponse hr
  obtain ⟨v, inputs, hv, hinputs, hverdict⟩ := wallet_accepts_lookups sampleCrates_nounLaws
    (sampleEnv_hashLaws.congr rfl) sampleEnv_mapLaws sampleEnv_moldLaws walletEnv_jamLaws
    (fun n => Nat.succ_ne_zero _) walletEnv_proverLaws walletTasks walletSchedule 2 "a.nock" rfl r
    hfinished walletHost checkpointCli [] rfl rfl not_cutsCharacter_checkpointCli walletHeaders
  have haccepts := hverdict (walletRun_keyFree hinputs)
  refine ⟨r, v, hfinished, hproof, hv, haccepts, haccepts.mpr ⟨⟨62999, "05", [5], [7], rfl, rfl,
    by decide, ?_, ?_⟩, Or.inl hproof, ?_⟩⟩
  · show hexDecodeEven r.lastProvedDigest = .ok [7]
    rw [hdigest]
    decide
  · show verifyHeaderChainToCheckpoint true r.lastProvedHeight [7] ⟨62999, [5]⟩ walletHeaders = .ok ()
    rw [hheight]
    decide
  · rw [hv] at howner
    obtain howner : v.owner = "\x03" := Option.some.inj howner
    rw [howner]
    decide

end NnsVerified.Hull
