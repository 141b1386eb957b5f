import NnsVerified.Hull.LightVerify
import NnsVerified.Hull.Proofs.LookupProofs

/-!
# What a verdict is pinned by

The three checks of the verifier pass on their own: nothing ties the root of a bundle to its proof.
A verdict on a row is pinned by the root of an honest accumulator, if the bundle carries it.
-/

namespace NnsVerified.Hull.LightVerify

open NnsVerified.Hoon NnsVerified.Library NnsVerified.Kernel

variable {H Z L Acc Vesl : Type} {c : Crates H Z L} {host : Host Acc Vesl}
  {env : Env Acc Vesl} {cli : Cli} {bundle : PathY4LookupBundle}

/-! ## Exits -/

theorem orExit_eq_ok {α : Type} {code : ExitCode} {context : String} {x : Except Failure α} {a : α} :
    orExit code context x = .ok a ↔ x = .ok a := by
  cases x with
  | ok b => simp [orExit]
  | error e => cases e <;> simp [orExit]

theorem required_eq_ok {α : Type} {code : ExitCode} {message : String} {x : Option α} {a : α} :
    required code message x = .ok a ↔ x = some a := by
  cases x <;> simp [required]

theorem ensure_eq_ok {condition : Bool} {code : ExitCode} {message : String} {u : Unit} :
    ensure condition code message = .ok u ↔ condition = true := by
  cases condition <;> simp [ensure]

theorem confirmed_eq_ok {falseCode : ExitCode} {falseMessage context : String}
    {answer : Except String Bool} {ok : Bool} :
    confirmed falseCode falseMessage context answer = .ok ok ↔ answer = .ok true ∧ ok = true := by
  unfold confirmed
  split <;> simp [eq_comm]

theorem exitCode_eq_zero {α : Type} {x : Except Exit α} : exitCode x = 0 ↔ ∃ a, x = .ok a := by
  cases x with
  | ok a => simp [exitCode]
  | error e =>
    cases e with
    | panic => simp [exitCode]
    | exit code message => cases code <;> simp [exitCode, ExitCode.code]

/-! ## The binary -/

/-- What `main` decodes from the flags and the bundle. -/
structure Decoded where
  cpHeight : UInt64
  cpHex : String
  checkpointDigest : List UInt8
  lastDigest : List UInt8
  accumulatorRoot : List UInt8
  recursiveBytes : Option (List UInt8)

/-- The flags and the bundle decode. -/
structure Decodes (cli : Cli) (bundle : PathY4LookupBundle) (d : Decoded) : Prop where
  cpHeight : cli.checkpointHeight = some d.cpHeight
  cpHex : cli.checkpointDigestHex = some d.cpHex
  checkpointDigest : hexDecodeEven d.cpHex = .ok d.checkpointDigest
  lastDigest : hexDecodeEven bundle.lastProvedDigestHex = .ok d.lastDigest
  accumulatorRoot : hexDecodeEven bundle.accumulatorRootHex = .ok d.accumulatorRoot
  recursiveBytes : decodeRecursiveProof bundle = .ok d.recursiveBytes

/-- The checks of `main` pass. -/
structure Passes (c : Crates H Z L) (host : Host Acc Vesl) (cli : Cli)
    (bundle : PathY4LookupBundle) (d : Decoded) (starkOk accOk : Bool) : Prop where
  zInProof : bundle.zInProof.all List.isEmpty = true
  stark : verifyStarkSection c host cli bundle d.recursiveBytes = .ok starkOk
  recursive : (d.recursiveBytes.isSome || cli.allowEmptyRecursive) = true
  value : verifyValueSection c host cli bundle d.accumulatorRoot = .ok accOk
  headers : verifyHeaderChainToCheckpoint host.overflowChecks bundle.lastProvedHeight d.lastDigest
    ⟨d.cpHeight, d.checkpointDigest⟩ bundle.headersToCheckpoint = .ok ()

/-- The binary prints its report just when everything decodes and every check passes. -/
theorem main_eq_ok {lines : List String} : main c host cli bundle = .ok lines ↔
    ∃ d starkOk accOk shown, Decodes cli bundle d ∧ Passes c host cli bundle d starkOk accOk ∧
      truncateHex d.cpHex 12 = .ok shown ∧
      lines = report cli bundle d.cpHeight shown starkOk accOk := by
  unfold main
  simp only [bind_eq_ok_iff, orExit_eq_ok, required_eq_ok, ensure_eq_ok, pure_eq_ok,
    Except.ok.injEq]
  constructor
  · rintro ⟨cpHeight, hheight, cpHex, hhex, cpDigest, hcp, -, hz, lastDigest, hlast, root, hroot,
      recursiveBytes, hrec, starkOk, hstark, -, hsome, accOk, hacc, u, hchain, shown, hshown, rfl⟩
    exact ⟨⟨cpHeight, cpHex, cpDigest, lastDigest, root, recursiveBytes⟩, starkOk, accOk, shown,
      ⟨hheight, hhex, hcp, hlast, hroot, hrec⟩, ⟨hz, hstark, hsome, hacc, hchain⟩, hshown, rfl⟩
  · rintro ⟨d, starkOk, accOk, shown, hd, hp, hshown, rfl⟩
    exact ⟨_, hd.cpHeight, _, hd.cpHex, _, hd.checkpointDigest, (), hp.zInProof, _, hd.lastDigest,
      _, hd.accumulatorRoot, _, hd.recursiveBytes, _, hp.stark, (), hp.recursive, _, hp.value, (),
      hp.headers, _, hshown, rfl⟩

/-! ## The answers of the kernel -/

/-- The offline verifier answers with the loobean that the kernel puts in the result. -/
theorem verifyOffline_eq_ok {context result : String} {firstError : List Noun → Option String}
    {firstResult : List Noun → Option Bool} {kernelJam : List UInt8} {input : Noun} {ok : Bool} :
    verifyOffline host context result firstError firstResult kernelJam input = .ok ok ↔
      ∃ env effects t, host.setup kernelJam = .ok env ∧
        poke env (fresh env) input = .ok (effects, t) ∧
        firstError (effects.map Effect.noun) = none ∧
        firstResult (effects.map Effect.noun) = some ok := by
  unfold verifyOffline
  simp only [bind_eq_ok_iff, mapError_eq_ok, Prod.exists]
  constructor
  · rintro ⟨env, hsetup, effects, t, hpoke, h⟩
    split at h
    · cases h
    · rename_i herror
      split at h
      · rename_i hresult
        obtain rfl := Except.ok.inj h
        exact ⟨env, effects, t, hsetup, hpoke, herror, hresult⟩
      · cases h
  · rintro ⟨env, effects, t, hsetup, hpoke, herror, hresult⟩
    refine ⟨env, hsetup, effects, t, hpoke, ?_⟩
    simp only [herror, hresult]

theorem loob_inj {a b : Bool} (h : Noun.loob a = Noun.loob b) : a = b := by
  cases a <;> cases b <;> first | rfl | cases h

/-- Where the kernel answers with an error or with a loobean, the offline verifier confirms just when
the answer is `%.y`. -/
theorem verifyOffline_true (hn : c.NounLaws) {context result errorTag resultTag : String}
    {kernelJam : List UInt8} {input : Noun} (herror : NoNul errorTag) (hresult : NoNul resultTag)
    (hne : errorTag ≠ resultTag)
    (hanswer : ∀ (env : Env Acc Vesl) effects t, poke env (fresh env) input = .ok (effects, t) →
      (∃ body, effects.map Effect.noun = [tagged errorTag body]) ∨
        ∃ ok, effects.map Effect.noun = [tagged resultTag (Noun.loob ok)]) :
    verifyOffline host context result (List.findSome? (effectText c errorTag))
        (List.findSome? (effectLoob c resultTag)) kernelJam input = .ok true ↔
      ∃ env effects t, host.setup kernelJam = .ok env ∧
        poke env (fresh env) input = .ok (effects, t) ∧
        effects.map Effect.noun = [tagged resultTag (Noun.loob true)] := by
  rw [verifyOffline_eq_ok]
  constructor
  · rintro ⟨env, effects, t, hsetup, hpoke, -, hok⟩
    refine ⟨env, effects, t, hsetup, hpoke, ?_⟩
    rcases hanswer env effects t hpoke with ⟨body, hbody⟩ | ⟨ok, hloob⟩
    · have hnone : effectLoob c resultTag (tagged errorTag body) = none :=
        effectLoob_of_ne (effectTag_tagged hn herror body) hne
      simp [hbody, hnone] at hok
    · have hsome : effectLoob c resultTag (tagged resultTag (Noun.loob ok)) = some ok :=
        effectLoob_tagged hn hresult ok
      rw [hloob]
      simp only [hloob, List.findSome?_singleton, hsome, Option.some.injEq] at hok
      rw [hok]
  · rintro ⟨env, effects, t, hsetup, hpoke, hyes⟩
    have hnone : effectText c errorTag (tagged resultTag (Noun.loob true)) = none :=
      effectText_of_ne (effectTag_tagged hn hresult _) hne.symm
    have hsome : effectLoob c resultTag (tagged resultTag (Noun.loob true)) = some true :=
      effectLoob_tagged hn hresult true
    exact ⟨env, effects, t, hsetup, hpoke, by simp [hyes, hnone], by simp [hyes, hsome]⟩

/-- The snapshot verifies offline just when a fresh kernel answers its poke with `%.y`. -/
theorem verifyAccumulatorSnapshotOffline_true (hn : c.NounLaws)
    {kernelJam expectedRoot accJam : List UInt8} {name owner : String} {txHash : List UInt8}
    {claimHeight : UInt64} {blockDigest : List UInt8} :
    verifyAccumulatorSnapshotOffline c host kernelJam expectedRoot accJam name owner txHash
        claimHeight blockDigest = .ok true ↔
      ∃ env t, host.setup kernelJam = .ok env ∧
        verifyAccumulatorSnapshot env (fresh env) ⟨leValue expectedRoot, leValue accJam,
          ⟨cord name, cord owner, leValue txHash, claimHeight.toNat, leValue blockDigest⟩⟩
          = .ok ([.accumulatorSnapshotVerifyResult true], t) := by
  have hpoke : ∀ (env : Env Acc Vesl) (v : VerifySnapshot),
      poke env (fresh env) v.noun = verifyAccumulatorSnapshot env (fresh env) v := fun env v =>
    poke_of_softCause _ (softCause_verifyAccumulatorSnapshot env v)
  unfold verifyAccumulatorSnapshotOffline
  rw [buildVerifyAccumulatorSnapshotPoke_eq hn]
  have hne : "accumulator-snapshot-verify-error" ≠ "accumulator-snapshot-verify-result" := by decide
  refine (verifyOffline_true hn (by simp [NoNul]) (by simp [NoNul]) hne
    fun env effects t hp => ?_).trans ?_
  · rw [hpoke] at hp
    rcases verifyAccumulatorSnapshot_answer hp with rfl | ⟨ok, rfl⟩
    · exact Or.inl ⟨_, rfl⟩
    · exact Or.inr ⟨ok, rfl⟩
  · constructor
    · rintro ⟨env, effects, t, hsetup, hp, hyes⟩
      rw [hpoke] at hp
      refine ⟨env, t, hsetup, ?_⟩
      rcases verifyAccumulatorSnapshot_answer hp with rfl | ⟨ok, rfl⟩
      · have htag := (Noun.cell.inj (List.singleton_inj.mp hyes)).1
        exact absurd (Noun.atom.inj htag) (by decide)
      · obtain rfl := loob_inj (Noun.cell.inj (List.singleton_inj.mp hyes)).2
        exact hp
    · rintro ⟨env, t, hsetup, hp⟩
      exact ⟨env, _, t, hsetup, (hpoke env _).trans hp, rfl⟩

/-! ## The row of a bundle -/

/-- The row that a bundle claims, as the kernel reads it. -/
def claimedRow (bundle : PathY4LookupBundle) : Option NnsAccumulatorEntry := do
  let v ← bundle.value
  let (txHash, blockDigest) ← (parseEntryHex v).toOption
  return ⟨cord (trim bundle.name), cord (trim v.owner), leValue txHash, v.claimHeight.toNat,
    leValue blockDigest⟩

theorem claimedRow_eq_some {e : NnsAccumulatorEntry} : claimedRow bundle = some e ↔
    ∃ v txHash blockDigest, bundle.value = some v ∧ parseEntryHex v = .ok (txHash, blockDigest) ∧
      e = ⟨cord (trim bundle.name), cord (trim v.owner), leValue txHash, v.claimHeight.toNat,
        leValue blockDigest⟩ := by
  unfold claimedRow
  simp only [Option.bind_eq_bind, Option.bind_eq_some_iff, toOption_eq_some, Prod.exists,
    Option.pure_def, Option.some.injEq, @eq_comm _ _ e]
  constructor
  · rintro ⟨v, hv, txHash, blockDigest, hparse, he⟩
    exact ⟨v, txHash, blockDigest, hv, hparse, he⟩
  · rintro ⟨v, txHash, blockDigest, hv, hparse, he⟩
    exact ⟨v, hv, txHash, blockDigest, hparse, he⟩

theorem claimedRow_name {e : NnsAccumulatorEntry} (h : claimedRow bundle = some e) :
    e.name = cord (trim bundle.name) := by
  obtain ⟨v, txHash, blockDigest, -, -, he⟩ := claimedRow_eq_some.mp h
  rw [he]

/-- A row that the kernel has confirmed against the snapshot and the root of its bundle. -/
structure Confirmed (host : Host Acc Vesl) (cli : Cli) (bundle : PathY4LookupBundle)
    (accumulatorRoot : List UInt8) (e : NnsAccumulatorEntry) : Prop where
  row : claimedRow bundle = some e
  verified : ∃ hex accJam kernelJam env t,
    present bundle.accumulatorSnapshotJamHex = some hex ∧ hexDecodeEven hex = .ok accJam ∧
    host.readFile cli.kernelJamPath = .ok kernelJam ∧ host.setup kernelJam = .ok env ∧
    verifyAccumulatorSnapshot env (fresh env) ⟨leValue accumulatorRoot, leValue accJam, e⟩
      = .ok ([.accumulatorSnapshotVerifyResult true], t)

/-- A row is accepted when the kernel has confirmed it, or when the flag allows it without a
snapshot. -/
theorem verifyValueSection_eq_ok (hn : c.NounLaws) (hvalue : bundle.value.isSome = true)
    {accumulatorRoot : List UInt8} {accOk : Bool} :
    verifyValueSection c host cli bundle accumulatorRoot = .ok accOk ↔
      (accOk = true ∧ ∃ e, Confirmed host cli bundle accumulatorRoot e) ∨
      (accOk = false ∧ present bundle.accumulatorSnapshotJamHex = none ∧
        cli.allowMissingZIn = true) := by
  obtain ⟨v, hv⟩ := Option.isSome_iff_exists.mp hvalue
  unfold verifyValueSection
  rw [hv]
  dsimp only
  cases hsnapshot : present bundle.accumulatorSnapshotJamHex with
  | none =>
    have hnone : ∀ e, ¬Confirmed host cli bundle accumulatorRoot e := by
      rintro e ⟨-, hex, -, -, -, -, hhex, -⟩
      rw [hsnapshot] at hhex
      cases hhex
    simp only [bind_eq_ok_iff, ensure_eq_ok, pure_eq_ok, Except.ok.injEq, hnone, exists_false,
      and_false, false_or, true_and]
    constructor
    · rintro ⟨-, hrelax, rfl⟩
      exact ⟨rfl, hrelax⟩
    · rintro ⟨rfl, hrelax⟩
      exact ⟨(), hrelax, rfl⟩
  | some hex =>
    simp only [bind_eq_ok_iff, orExit_eq_ok, confirmed_eq_ok, kernelJamBytes, mapError_eq_ok,
      Prod.exists, verifyAccumulatorSnapshotOffline_true hn]
    constructor
    · rintro ⟨accJam, hjam, txHash, blockDigest, hparse, kernelJam, hread, ⟨env, t, hsetup,
        hverify⟩, rfl⟩
      have hrow := claimedRow_eq_some.mpr ⟨v, txHash, blockDigest, hv, hparse, rfl⟩
      exact Or.inl ⟨rfl, _, hrow, hex, accJam, kernelJam, env, t, hsnapshot, hjam, hread, hsetup,
        hverify⟩
    · rintro (⟨rfl, e, hrow, hex', accJam, kernelJam, env, t, hhex, hjam, hread, hsetup, hverify⟩ |
        ⟨-, hnone, -⟩)
      · obtain rfl := Option.some.inj (hsnapshot.symm.trans hhex)
        obtain ⟨v', txHash, blockDigest, hv', hparse, rfl⟩ := claimedRow_eq_some.mp hrow
        obtain rfl := Option.some.inj (hv.symm.trans hv')
        exact ⟨accJam, hjam, txHash, blockDigest, hparse, kernelJam, hread,
          ⟨env, t, hsetup, hverify⟩, rfl⟩
      · cases hnone

/-- A bundle carries the root of an accumulator, and the root of its snapshot does not collide with
it. -/
structure CarriesRoot (env : Env Acc Vesl) (bundle : PathY4LookupBundle) (acc : Acc) : Prop where
  root : ∃ bytes, hexDecodeEven bundle.accumulatorRootHex = .ok bytes ∧
    rootAtom env acc = .ok (leValue bytes)
  distinct : ∀ hex accJam n acc', present bundle.accumulatorSnapshotJamHex = some hex →
    hexDecodeEven hex = .ok accJam → env.cue (leValue accJam) = .ok n →
    env.clamAccumulator n = some acc' → RootsDistinct env acc' acc

/-- An accepted row, in a bundle that carries the root of an accumulator of the kernel, is the row
that the accumulator holds. -/
theorem accepted_row (hn : c.NounLaws) (hh : env.HashLaws) (hm : env.MapLaws)
    (hboot : ∀ kernelJam env', host.setup kernelJam = .ok env' → env' = env) {inputs : List Noun}
    (hstrict : cli.allowMissingZIn = false) (hvalue : bundle.value.isSome = true)
    (hrun : exitCode (main c host cli bundle) = 0)
    (hroot : CarriesRoot env bundle (runState env inputs).accumulator) :
    ∃ e, claimedRow bundle = some e ∧
      get env (runState env inputs).accumulator (cord (trim bundle.name)) = .ok (some e) := by
  obtain ⟨lines, hmain⟩ := exitCode_eq_zero.mp hrun
  obtain ⟨d, starkOk, accOk, shown, hd, hp, -, -⟩ := main_eq_ok.mp hmain
  have hconfirmed : ∃ e, Confirmed host cli bundle d.accumulatorRoot e := by
    rcases (verifyValueSection_eq_ok hn hvalue).mp hp.value with ⟨-, h⟩ | ⟨-, -, hrelax⟩
    · exact h
    · rw [hstrict] at hrelax
      cases hrelax
  obtain ⟨e, hrow, hex, accJam, kernelJam, env', t, hhex, hjam, -, hsetup, hverify⟩ := hconfirmed
  obtain rfl := hboot kernelJam env' hsetup
  obtain ⟨bytes, hbytes, hrootAtom⟩ := hroot.root
  obtain rfl := Except.ok.inj (hbytes.symm.trans hd.accumulatorRoot)
  refine ⟨e, hrow, ?_⟩
  rw [← claimedRow_name hrow]
  exact verifyAccumulatorSnapshot_sound hh hm (runInv hh hm inputs).inserted hrootAtom
    (fun n acc' hcue hclam => hroot.distinct hex accJam n acc' hhex hjam hcue hclam) hverify
    (List.mem_singleton.mpr rfl)

/-- Two accepted rows for one name, in bundles that carry the root of one accumulator of the kernel,
are the same row, the one that the accumulator holds. -/
theorem verdict_pinned_by_root (hn : c.NounLaws) (hh : env.HashLaws) (hm : env.MapLaws)
    (hboot : ∀ kernelJam env', host.setup kernelJam = .ok env' → env' = env) (inputs : List Noun)
    (cli cli' : Cli) (hstrict : cli.allowMissingZIn = false)
    (hstrict' : cli'.allowMissingZIn = false) (b b' : PathY4LookupBundle)
    (hname : trim b.name = trim b'.name) (hvalue : b.value.isSome = true)
    (hvalue' : b'.value.isSome = true) (hrun : exitCode (main c host cli b) = 0)
    (hrun' : exitCode (main c host cli' b') = 0)
    (hroot : CarriesRoot env b (runState env inputs).accumulator)
    (hroot' : CarriesRoot env b' (runState env inputs).accumulator) :
    ∃ e, claimedRow b = some e ∧ claimedRow b' = some e ∧
      get env (runState env inputs).accumulator (cord (trim b.name)) = .ok (some e) := by
  obtain ⟨e, hrow, hget⟩ := accepted_row hn hh hm hboot hstrict hvalue hrun hroot
  obtain ⟨e', hrow', hget'⟩ := accepted_row hn hh hm hboot hstrict' hvalue' hrun' hroot'
  rw [← hname, hget] at hget'
  obtain rfl := Option.some.inj (Except.ok.inj hget')
  exact ⟨e, hrow, hrow', hget⟩

/-! ## Bundles that carry one proof -/

/-- The sample kernel, with a verifier that accepts one proof of one computation. -/
def provenEnv : Env (List (NnsNameKey × NnsAccumulatorEntry)) Unit :=
  { sampleEnv with
    verify := fun proof subject formula =>
      .ok (decide (proof = .atom 1 ∧ subject = .atom 2 ∧ formula = .atom 3)) }

theorem provenEnv_hashLaws : provenEnv.HashLaws := sampleEnv_hashLaws.congr rfl

/-- A machine that boots that kernel from any jam. -/
def sampleHost : Host (List (NnsNameKey × NnsAccumulatorEntry)) Unit where
  readFile _ := .ok []
  setup _ := .ok provenEnv
  debugFault _ := ""
  overflowChecks := true

/-- A run with no relax flag, for a checkpoint at the cursor of the bundles. -/
def strictCli : Cli := ⟨some 63000, some "07", "nns.jam", false, false⟩

/-- The root of an accumulator. -/
def rootOf (acc : List (NnsNameKey × NnsAccumulatorEntry)) : Nat :=
  (rootAtom provenEnv acc).toOption.getD 0

theorem rootAtom_rootOf {acc : List (NnsNameKey × NnsAccumulatorEntry)}
    (h : ∀ e ∈ rows provenEnv acc, e.claimHeight < goldilocks) :
    rootAtom provenEnv acc = .ok (rootOf acc) := by
  obtain ⟨root, hroot⟩ := rootAtom_ok provenEnv_hashLaws h
  rw [rootOf, hroot]
  rfl

/-- A bundle with the snapshot of an accumulator, its root, and a row. Every such bundle carries the
same proof, subject, formula, cursor and headers. -/
def exported (acc : List (NnsNameKey × NnsAccumulatorEntry)) (name : String)
    (v : AccumulatorEntryJson) : PathY4LookupBundle where
  name := name
  value := some v
  lastProvedHeight := 63000
  lastProvedDigestHex := "07"
  accumulatorRootHex := hexEncode (sampleCrates.asNeBytes (rootOf acc))
  recursiveProofHex := some "02"
  recursiveSubjectJamHex := some "04"
  recursiveFormulaJamHex := some "06"
  accumulatorSnapshotJamHex := some (hexEncode (sampleCrates.asNeBytes
    (sampleEnv.jam (sampleEnv.accumulatorNoun acc))))
  zInProof := none
  headersToCheckpoint := []

theorem claimedRow_exported (acc : List (NnsNameKey × NnsAccumulatorEntry)) (name : String)
    (v : AccumulatorEntryJson) :
    claimedRow (exported acc name v) = claimedRow (exported [] name v) := rfl

theorem present_hexEncode {bytes : List UInt8} (h : bytes ≠ []) :
    present (some (hexEncode bytes)) = some (hexEncode bytes) := by
  have hne : (hexEncode bytes).isEmpty = false := by
    cases bytes with
    | nil => exact absurd rfl h
    | cons b bytes => simp [hexEncode]
  simp [present, trim_hexEncode, hne]

theorem asNeBytes_jam {acc : List (NnsNameKey × NnsAccumulatorEntry)} (h : acc ≠ []) :
    sampleCrates.asNeBytes (sampleEnv.jam (sampleEnv.accumulatorNoun acc)) ≠ [] := by
  intro hnil
  have hvalue := sampleCrates_nounLaws.leValue_asNeBytes
    (sampleEnv.jam (sampleEnv.accumulatorNoun acc))
  rw [hnil] at hvalue
  cases acc with
  | nil => exact h rfl
  | cons row acc => exact Nat.succ_ne_zero _ hvalue.symm

/-- The kernel confirms the row of such a bundle whenever its parts fit together. -/
theorem exported_confirmed {acc : List (NnsNameKey × NnsAccumulatorEntry)}
    {name : String} {v : AccumulatorEntryJson} {e : NnsAccumulatorEntry}
    (hroot : rootAtom provenEnv acc = .ok (rootOf acc))
    (hrow : claimedRow (exported acc name v) = some e)
    (hget : get provenEnv acc e.name = .ok (some e)) :
    Confirmed sampleHost strictCli (exported acc name v) (sampleCrates.asNeBytes (rootOf acc)) e := by
  have hne : acc ≠ [] := by
    rintro rfl
    obtain ⟨k, -, hk⟩ := bind_eq_ok hget
    cases hk
  have hverify : verifyAccumulatorSnapshot provenEnv (fresh provenEnv)
      ⟨leValue (sampleCrates.asNeBytes (rootOf acc)), leValue (sampleCrates.asNeBytes
        (sampleEnv.jam (sampleEnv.accumulatorNoun acc))), e⟩
      = .ok ([.accumulatorSnapshotVerifyResult true], fresh provenEnv) := by
    rw [sampleCrates_nounLaws.leValue_asNeBytes, sampleCrates_nounLaws.leValue_asNeBytes]
    have hanswer := verifyAccumulatorSnapshot_eq (s := fresh provenEnv)
      (v := ⟨rootOf acc, sampleEnv.jam (sampleEnv.accumulatorNoun acc), e⟩) (sampleEnv_jamLaws _)
      (sampleEnv_clamAccumulator acc) hroot hget
    rw [decide_eq_true rfl] at hanswer
    exact hanswer
  exact ⟨hrow, _, _, _, _, _, present_hexEncode (asNeBytes_jam hne), hexDecodeEven_hexEncode _, rfl,
    rfl, hverify⟩

/-- Such a bundle is accepted in strict mode whenever its parts fit together. -/
theorem exported_accepted {acc : List (NnsNameKey × NnsAccumulatorEntry)}
    {name : String} {v : AccumulatorEntryJson} {e : NnsAccumulatorEntry}
    (hroot : rootAtom provenEnv acc = .ok (rootOf acc))
    (hrow : claimedRow (exported acc name v) = some e)
    (hget : get provenEnv acc e.name = .ok (some e)) :
    exitCode (main sampleCrates sampleHost strictCli (exported acc name v)) = 0 := by
  have hconfirmed := exported_confirmed hroot hrow hget
  -- the other fields do not depend on the accumulator or on the row
  have hproof : decodeRecursiveProof (exported [] "" ⟨"", "", 0, ""⟩) = .ok (some [2]) := by
    decide
  have hstark : verifyStarkSection sampleCrates sampleHost strictCli
      (exported [] "" ⟨"", "", 0, ""⟩) (some [2]) = .ok true := by
    decide
  have hdigest : hexDecodeEven "07" = .ok [7] := by decide
  have hheaders : verifyHeaderChainToCheckpoint true 63000 [7] ⟨63000, [7]⟩ [] = .ok () := by
    decide
  have hshown : truncateHex "07" 12 = .ok "07" := by decide
  refine exitCode_eq_zero.mpr ⟨_, main_eq_ok.mpr ⟨⟨63000, "07", [7], [7],
    sampleCrates.asNeBytes (rootOf acc), some [2]⟩, true, true, "07", ?_, ?_, hshown, rfl⟩⟩
  · exact {
      cpHeight := rfl
      cpHex := rfl
      checkpointDigest := hdigest
      lastDigest := hdigest
      accumulatorRoot := hexDecodeEven_hexEncode _
      recursiveBytes := hproof }
  · exact {
      zInProof := rfl
      stark := hstark
      recursive := rfl
      value := (verifyValueSection_eq_ok sampleCrates_nounLaws rfl).mpr (Or.inl ⟨rfl, e, hconfirmed⟩)
      headers := hheaders }

theorem exported_carriesRoot {acc : List (NnsNameKey × NnsAccumulatorEntry)}
    {name : String} {v : AccumulatorEntryJson} (hne : acc ≠ [])
    (hroot : rootAtom provenEnv acc = .ok (rootOf acc)) :
    CarriesRoot provenEnv (exported acc name v) acc where
  root := ⟨_, hexDecodeEven_hexEncode _, by rwa [sampleCrates_nounLaws.leValue_asNeBytes]⟩
  distinct := by
    intro hex accJam n acc' hhex hjam hcue hclam r _ _
    obtain rfl := Option.some.inj ((present_hexEncode (asNeBytes_jam hne)).symm.trans hhex)
    obtain rfl := Except.ok.inj ((hexDecodeEven_hexEncode _).symm.trans hjam)
    rw [sampleCrates_nounLaws.leValue_asNeBytes] at hcue
    obtain rfl := Except.ok.inj ((sampleEnv_jamLaws _).symm.trans hcue)
    rw [Option.some.inj ((sampleEnv_clamAccumulator acc).symm.trans hclam)]

/-- The accumulator of the contested registry. -/
def contestedAccumulator : List (NnsNameKey × NnsAccumulatorEntry) :=
  (runState provenEnv [contestedBlock.noun]).accumulator

/-- The row of its winner, and the row of a forger. -/
def winnerRow : NnsAccumulatorEntry := ⟨cord "a.nock", 3, 21, 63000, 7⟩

/-- A row of the name of the winner, with another owner. -/
def forgedRow : NnsAccumulatorEntry := ⟨cord "a.nock", 4, 22, 63000, 7⟩

/-- The row of the winner in a bundle. -/
def winnerValue : AccumulatorEntryJson := ⟨"\x03", "15", 63000, "07"⟩

/-- The forged row in a bundle. -/
def forgedValue : AccumulatorEntryJson := ⟨"\x04", "16", 63000, "07"⟩

theorem contestedAccumulator_root :
    rootAtom provenEnv contestedAccumulator = .ok (rootOf contestedAccumulator) := by
  refine rootAtom_rootOf ?_
  decide +kernel

theorem contestedAccumulator_get :
    get provenEnv contestedAccumulator (cord "a.nock") = .ok (some winnerRow) := by
  decide +kernel

theorem claimedRow_winner (acc : List (NnsNameKey × NnsAccumulatorEntry)) :
    claimedRow (exported acc "a.nock" winnerValue) = some winnerRow := by
  rw [claimedRow_exported]
  decide

theorem claimedRow_forged (acc : List (NnsNameKey × NnsAccumulatorEntry)) :
    claimedRow (exported acc "a.nock" forgedValue) = some forgedRow := by
  rw [claimedRow_exported]
  decide

/-- Two bundles carry the same proof, traced subject and formula, the same cursor and the same
headers. -/
structure SameProof (b b' : PathY4LookupBundle) : Prop where
  proof : b.recursiveProofHex = b'.recursiveProofHex
  subject : b.recursiveSubjectJamHex = b'.recursiveSubjectJamHex
  formula : b.recursiveFormulaJamHex = b'.recursiveFormulaJamHex
  height : b.lastProvedHeight = b'.lastProvedHeight
  digest : b.lastProvedDigestHex = b'.lastProvedDigestHex
  headers : b.headersToCheckpoint = b'.headersToCheckpoint

/-- Two bundles are accepted in strict mode with different rows for one name. -/
structure Disagree (b b' : PathY4LookupBundle) : Prop where
  name : b.name = b'.name
  accepted : exitCode (main sampleCrates sampleHost strictCli b) = 0
  accepted' : exitCode (main sampleCrates sampleHost strictCli b') = 0
  rows : ∃ e e', claimedRow b = some e ∧ claimedRow b' = some e' ∧ e.owner ≠ e'.owner ∧
    e.txHash ≠ e'.txHash

theorem exported_disagree {acc acc' : List (NnsNameKey × NnsAccumulatorEntry)}
    (hroot : rootAtom provenEnv acc = .ok (rootOf acc))
    (hroot' : rootAtom provenEnv acc' = .ok (rootOf acc'))
    (hget : get provenEnv acc (cord "a.nock") = .ok (some winnerRow))
    (hget' : get provenEnv acc' (cord "a.nock") = .ok (some forgedRow)) :
    Disagree (exported acc "a.nock" winnerValue) (exported acc' "a.nock" forgedValue) where
  name := rfl
  accepted := exported_accepted hroot (claimedRow_winner acc) hget
  accepted' := exported_accepted hroot' (claimedRow_forged acc') hget'
  rows := ⟨_, _, claimedRow_winner acc, claimedRow_forged acc', by decide, by decide⟩

/-- An accumulator with the row of the forger alone. -/
def forgedAccumulator : List (NnsNameKey × NnsAccumulatorEntry) :=
  [(keyOf provenEnv (cord "a.nock"), forgedRow)]

/-- Two accumulators with the same rows, of which the first finds the row of the winner and the
second that of the forger. The other row is under a key that is not the digest of its name. -/
def winnerTwin : List (NnsNameKey × NnsAccumulatorEntry) :=
  [(keyOf provenEnv (cord "a.nock"), winnerRow), (⟨0, 0, 0, 0, 0⟩, forgedRow)]

/-- An accumulator with the forged row under the key of the name, and with the row of the winner. -/
def forgedTwin : List (NnsNameKey × NnsAccumulatorEntry) :=
  [(⟨0, 0, 0, 0, 0⟩, winnerRow), (keyOf provenEnv (cord "a.nock"), forgedRow)]

/-- A root, a snapshot and a row are swapped under one proof, and two snapshots with one root
disagree as well. -/
theorem verdict_not_pinned_by_proof :
    (SameProof (exported contestedAccumulator "a.nock" winnerValue)
        (exported forgedAccumulator "a.nock" forgedValue) ∧
      Disagree (exported contestedAccumulator "a.nock" winnerValue)
        (exported forgedAccumulator "a.nock" forgedValue)) ∧
    (SameProof (exported winnerTwin "a.nock" winnerValue)
        (exported forgedTwin "a.nock" forgedValue) ∧
      Disagree (exported winnerTwin "a.nock" winnerValue)
        (exported forgedTwin "a.nock" forgedValue) ∧
      (exported winnerTwin "a.nock" winnerValue).accumulatorRootHex
        = (exported forgedTwin "a.nock" forgedValue).accumulatorRootHex) := by
  have hforged : rootAtom provenEnv forgedAccumulator = .ok (rootOf forgedAccumulator) :=
    rootAtom_rootOf (by decide)
  have hwinner : rootAtom provenEnv winnerTwin = .ok (rootOf winnerTwin) :=
    rootAtom_rootOf (by decide)
  have htwin : rootAtom provenEnv winnerTwin = rootAtom provenEnv forgedTwin := by decide +kernel
  have hrootOf : rootOf winnerTwin = rootOf forgedTwin := by
    unfold rootOf
    rw [htwin]
  refine ⟨⟨⟨rfl, rfl, rfl, rfl, rfl, rfl⟩, ?_⟩, ⟨rfl, rfl, rfl, rfl, rfl, rfl⟩, ?_, ?_⟩
  · exact exported_disagree contestedAccumulator_root hforged contestedAccumulator_get
      (by decide +kernel)
  · exact exported_disagree hwinner (by rw [← htwin, hwinner, hrootOf]) (by decide +kernel)
      (by decide +kernel)
  · exact congrArg (fun root => hexEncode (sampleCrates.asNeBytes root)) hrootOf

/-- The row of the winner in another spelling. -/
def respelledValue : AccumulatorEntryJson := ⟨" \x03", "1500", 63000, "0700"⟩

theorem claimedRow_respelled (acc : List (NnsNameKey × NnsAccumulatorEntry)) :
    claimedRow (exported acc "a.nock " respelledValue) = some winnerRow := by
  rw [claimedRow_exported]
  decide

theorem verdict_pinned_by_root_contested : ∃ e,
    claimedRow (exported contestedAccumulator "a.nock" winnerValue) = some e ∧
    claimedRow (exported contestedAccumulator "a.nock " respelledValue) = some e ∧
    get provenEnv contestedAccumulator (cord "a.nock") = .ok (some e) := by
  have hname : trim "a.nock" = "a.nock" := by decide
  have htrim : trim "a.nock" = trim "a.nock " := by decide
  have hne : contestedAccumulator ≠ [] := by decide +kernel
  have hboot : ∀ kernelJam env', sampleHost.setup kernelJam = .ok env' → env' = provenEnv :=
    fun _ _ h => (Except.ok.inj h).symm
  obtain ⟨e, hrow, hrow', hget⟩ := verdict_pinned_by_root sampleCrates_nounLaws provenEnv_hashLaws
    sampleEnv_mapLaws hboot [contestedBlock.noun] strictCli strictCli rfl rfl
    (exported contestedAccumulator "a.nock" winnerValue)
    (exported contestedAccumulator "a.nock " respelledValue) htrim rfl rfl
    (exported_accepted contestedAccumulator_root (claimedRow_winner _) contestedAccumulator_get)
    (exported_accepted contestedAccumulator_root (claimedRow_respelled _) contestedAccumulator_get)
    (exported_carriesRoot hne contestedAccumulator_root)
    (exported_carriesRoot hne contestedAccumulator_root)
  refine ⟨e, hrow, hrow', ?_⟩
  rw [← hname]
  exact hget

end NnsVerified.Hull.LightVerify
