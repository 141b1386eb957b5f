import NnsVerified.Hull.Proofs.LightVerifyProofs

/-!
# When the verifier accepts

A check is skipped only where its input is absent, and there only under its flag. The binary ends
with 0 on the bundles that pass, unless the preview of the checkpoint in its report ends within a
character.
-/

namespace NnsVerified.Hull.LightVerify

open NnsVerified.Hoon NnsVerified.Library NnsVerified.Kernel

variable {H Z L Acc Vesl : Type} {c : Crates H Z L} {host : Host Acc Vesl}
  {env : Env Acc Vesl} {cli : Cli} {bundle : PathY4LookupBundle}

/-! ## The proof of a bundle -/

/-- The `%verify-stark-explicit` poke of three jams. -/
def verifyStarkExplicitNoun (proofJam subjectJam formulaJam : Nat) : Noun :=
  tagged CauseTag.verifyStarkExplicit.text
    (Noun.tuple (.atom proofJam) [.atom subjectJam, .atom formulaJam])

theorem poke_verifyStarkExplicit (env : Env Acc Vesl) (s : State Acc Vesl)
    (proofJam subjectJam formulaJam : Nat) :
    poke env s (verifyStarkExplicitNoun proofJam subjectJam formulaJam)
      = verifyStarkExplicit env s (.atom proofJam) (.atom subjectJam) (.atom formulaJam) := by
  have hcause : softCause env (verifyStarkExplicitNoun proofJam subjectJam formulaJam)
      = some (.verifyStarkExplicit (.atom proofJam) (.atom subjectJam) (.atom formulaJam)) :=
    softCause_tag env .verifyStarkExplicit _
  exact poke_of_softCause s hcause

theorem buildVerifyStarkExplicitPoke_eq (hn : c.NounLaws)
    (proofJam subjectJam formulaJam : List UInt8) :
    buildVerifyStarkExplicitPoke c proofJam subjectJam formulaJam
      = verifyStarkExplicitNoun (leValue proofJam) (leValue subjectJam) (leValue formulaJam) := by
  unfold buildVerifyStarkExplicitPoke
  rw [hn.makeTagIn_eq, hn.makeAtomIn_eq, hn.makeAtomIn_eq, hn.makeAtomIn_eq]
  rfl

/-- A proof is answered with an error, or with a loobean. -/
theorem verifyStarkExplicit_answer {s t : State Acc Vesl} {blob subject formula : Noun}
    {effects : List Effect} (h : verifyStarkExplicit env s blob subject formula = .ok (effects, t)) :
    (∃ e, effects = [.verifyStarkError e]) ∨ ∃ ok, effects = [.verifyStarkResult ok] := by
  have herror : ∀ {e : VerifyStarkFault},
      (.ok ([.verifyStarkError e], s) : Eval (List Effect × State Acc Vesl)) = .ok (effects, t) →
      (∃ e, effects = [.verifyStarkError e]) ∨ ∃ ok, effects = [.verifyStarkResult ok] := by
    intro e he
    exact Or.inl ⟨e, (Prod.mk.inj (Except.ok.inj he)).1.symm⟩
  unfold verifyStarkExplicit at h
  cases blob with
  | cell p q => exact herror h
  | atom jammy =>
    cases subject with
    | cell p q => exact herror h
    | atom subjectJam =>
      cases formula with
      | cell p q => exact herror h
      | atom formulaJam =>
        obtain ⟨proofCue, -, h⟩ := bind_eq_ok h
        cases proofCue with
        | error trace => exact herror h
        | ok cued =>
          obtain ⟨proof, -, h⟩ := bind_eq_ok h
          obtain ⟨subjectCue, -, h⟩ := bind_eq_ok h
          cases subjectCue with
          | error trace => exact herror h
          | ok traced =>
            obtain ⟨formulaCue, -, h⟩ := bind_eq_ok h
            cases formulaCue with
            | error trace => exact herror h
            | ok form =>
              obtain ⟨ok, -, h⟩ := bind_eq_ok h
              exact Or.inr ⟨ok, (Prod.mk.inj (Except.ok.inj h)).1.symm⟩

/-- The proof verifies offline just when a fresh kernel answers its poke with `%.y`. -/
theorem verifyStarkExplicitOffline_true (hn : c.NounLaws)
    {kernelJam proofJam subjectJam formulaJam : List UInt8} :
    verifyStarkExplicitOffline c host kernelJam proofJam subjectJam formulaJam = .ok true ↔
      ∃ env t, host.setup kernelJam = .ok env ∧
        verifyStarkExplicit env (fresh env) (.atom (leValue proofJam)) (.atom (leValue subjectJam))
          (.atom (leValue formulaJam)) = .ok ([.verifyStarkResult true], t) := by
  unfold verifyStarkExplicitOffline
  rw [buildVerifyStarkExplicitPoke_eq hn]
  have hne : "verify-stark-error" ≠ "verify-stark-result" := by decide
  refine (verifyOffline_true hn (by simp [NoNul]) (by simp [NoNul]) hne
    fun env effects t hp => ?_).trans ?_
  · rw [poke_verifyStarkExplicit] at hp
    rcases verifyStarkExplicit_answer hp with ⟨e, rfl⟩ | ⟨ok, rfl⟩
    · exact Or.inl ⟨_, rfl⟩
    · exact Or.inr ⟨ok, rfl⟩
  · constructor
    · rintro ⟨env, effects, t, hsetup, hp, hyes⟩
      rw [poke_verifyStarkExplicit] at hp
      refine ⟨env, t, hsetup, ?_⟩
      rcases verifyStarkExplicit_answer hp with ⟨e, rfl⟩ | ⟨ok, rfl⟩
      · have htag := (Noun.cell.inj (List.singleton_inj.mp hyes)).1
        exact absurd (Noun.atom.inj htag) (by decide)
      · obtain rfl := loob_inj (Noun.cell.inj (List.singleton_inj.mp hyes)).2
        exact hp
    · rintro ⟨env, t, hsetup, hp⟩
      exact ⟨env, _, t, hsetup, (poke_verifyStarkExplicit env _ _ _ _).trans hp, rfl⟩

theorem present_eq_some {field : Option String} {t : String} :
    present field = some t ↔ ∃ s, field = some s ∧ trim s = t ∧ t.isEmpty = false := by
  unfold present
  rw [Option.filter_eq_some_iff, Option.map_eq_some_iff]
  constructor
  · rintro ⟨⟨s, hs, ht⟩, hne⟩
    exact ⟨s, hs, ht, by simpa using hne⟩
  · rintro ⟨s, hs, ht, hne⟩
    exact ⟨⟨s, hs, ht⟩, by simp [hne]⟩

/-- The loop reads at least one byte off a text that has some. -/
theorem loop_eq_nil {bytes : List UInt8} (heven : bytes.length % 2 = 0)
    (h : hexDecodeEven.loop bytes = .ok []) : bytes = [] := by
  rcases bytes with _ | ⟨x, _ | ⟨y, rest⟩⟩
  · rfl
  · simp at heven
  · rw [hexDecodeEven.loop] at h
    split at h
    · cases h
    · split at h
      · cases h
      · cases hloop : hexDecodeEven.loop rest with
        | error e => simp [hloop, Except.map] at h
        | ok vs => simp [hloop, Except.map] at h

/-- A field that is present does not decode to nothing. -/
theorem hexDecodeEven_present {field : Option String} {t : String} {b : List UInt8}
    (h : present field = some t) (hb : hexDecodeEven t = .ok b) : b.isEmpty = false := by
  obtain ⟨s, -, ht, hne⟩ := present_eq_some.mp h
  have htrim : trim t = t := by
    rw [← ht]
    exact trim_trim s
  cases b with
  | cons v vs => rfl
  | nil =>
    unfold hexDecodeEven at hb
    rw [htrim] at hb
    dsimp only at hb
    split at hb
    · cases hb
    · rename_i heven
      have hbytes := loop_eq_nil (not_not.mp heven) hb
      have hle := length_le_length_utf8Chars t.toList
      rw [← utf8, hbytes] at hle
      have hnil : t.toList = [] := List.length_eq_zero_iff.mp (Nat.le_zero.mp hle)
      rw [String.toList_eq_nil_iff.mp hnil] at hne
      cases hne

theorem decodeRecursiveProof_eq_ok {b : Option (List UInt8)} :
    decodeRecursiveProof bundle = .ok b ↔
      (present bundle.recursiveProofHex = none ∧ b = none) ∨
      ∃ t bytes, present bundle.recursiveProofHex = some t ∧ hexDecodeEven t = .ok bytes ∧
        b = some bytes := by
  unfold decodeRecursiveProof
  cases hproof : bundle.recursiveProofHex with
  | none => simp [present, eq_comm]
  | some s =>
    dsimp only
    cases hempty : (trim s).isEmpty with
    | true =>
      have hnone : present (some s) = none := by simpa [present] using hempty
      simp [hnone, @eq_comm _ none b]
    | false =>
      have hsome : present (some s) = some (trim s) := by simp [present, hempty]
      simp only [hsome, Option.some.injEq, reduceCtorEq, false_and, false_or, Bool.false_eq_true,
        if_false]
      constructor
      · intro h
        cases hdecode : hexDecodeEven (trim s) with
        | ok bytes =>
          simp only [hdecode, orExit, Except.map, Except.ok.injEq] at h
          exact ⟨_, bytes, rfl, hdecode, h.symm⟩
        | error e => cases e <;> simp [hdecode, orExit, Except.map] at h
      · rintro ⟨t, bytes, rfl, hdecode, rfl⟩
        simp [hdecode, orExit, Except.map]

/-- A proof that the kernel has confirmed. -/
structure StarkConfirmed (host : Host Acc Vesl) (cli : Cli) (bundle : PathY4LookupBundle) :
    Prop where
  verified : ∃ proofHex subjectHex formulaHex proofJam subjectJam formulaJam kernelJam env t,
    present bundle.recursiveProofHex = some proofHex ∧
    present bundle.recursiveSubjectJamHex = some subjectHex ∧
    present bundle.recursiveFormulaJamHex = some formulaHex ∧
    hexDecodeEven proofHex = .ok proofJam ∧ hexDecodeEven subjectHex = .ok subjectJam ∧
    hexDecodeEven formulaHex = .ok formulaJam ∧
    host.readFile cli.kernelJamPath = .ok kernelJam ∧ host.setup kernelJam = .ok env ∧
    verifyStarkExplicit env (fresh env) (.atom (leValue proofJam)) (.atom (leValue subjectJam))
      (.atom (leValue formulaJam)) = .ok ([.verifyStarkResult true], t)

/-- A proof that is there passes when both jams are there and the kernel confirms it. -/
theorem verifyStarkSection_eq_ok (hn : c.NounLaws) {proofJam : List UInt8} {starkOk : Bool}
    (hne : proofJam.isEmpty = false) :
    verifyStarkSection c host cli bundle (some proofJam) = .ok starkOk ↔
      starkOk = true ∧ ∃ subjectHex formulaHex subjectJam formulaJam kernelJam env t,
        present bundle.recursiveSubjectJamHex = some subjectHex ∧
        present bundle.recursiveFormulaJamHex = some formulaHex ∧
        hexDecodeEven subjectHex = .ok subjectJam ∧ hexDecodeEven formulaHex = .ok formulaJam ∧
        host.readFile cli.kernelJamPath = .ok kernelJam ∧ host.setup kernelJam = .ok env ∧
        verifyStarkExplicit env (fresh env) (.atom (leValue proofJam)) (.atom (leValue subjectJam))
          (.atom (leValue formulaJam)) = .ok ([.verifyStarkResult true], t) := by
  unfold verifyStarkSection
  dsimp only
  rw [hne, if_neg Bool.false_ne_true]
  cases hsubject : present bundle.recursiveSubjectJamHex with
  | none => simp
  | some subjectHex =>
    cases hformula : present bundle.recursiveFormulaJamHex with
    | none => simp
    | some formulaHex =>
      simp only [bind_eq_ok_iff, orExit_eq_ok, confirmed_eq_ok, kernelJamBytes, mapError_eq_ok,
        verifyStarkExplicitOffline_true hn, Option.some.injEq]
      constructor
      · rintro ⟨subjectJam, hsj, formulaJam, hfj, kernelJam, hread, ⟨env, t, hsetup, hverify⟩, rfl⟩
        exact ⟨rfl, _, _, subjectJam, formulaJam, kernelJam, env, t, rfl, rfl, hsj, hfj, hread,
          hsetup, hverify⟩
      · rintro ⟨rfl, _, _, subjectJam, formulaJam, kernelJam, env, t, rfl, rfl, hsj, hfj, hread,
          hsetup, hverify⟩
        exact ⟨subjectJam, hsj, formulaJam, hfj, kernelJam, hread, ⟨env, t, hsetup, hverify⟩, rfl⟩

/-- The proof of a bundle passes when the kernel confirms it, or when the flag allows its absence. -/
theorem stark_passes (hn : c.NounLaws) :
    (∃ proofJam starkOk, decodeRecursiveProof bundle = .ok proofJam ∧
      verifyStarkSection c host cli bundle proofJam = .ok starkOk ∧
      (proofJam.isSome || cli.allowEmptyRecursive) = true) ↔
    StarkConfirmed host cli bundle ∨
      (present bundle.recursiveProofHex = none ∧ cli.allowEmptyRecursive = true) := by
  constructor
  · rintro ⟨proofJam, starkOk, hdecode, hstark, hrelax⟩
    rcases decodeRecursiveProof_eq_ok.mp hdecode with ⟨habsent, rfl⟩ | ⟨hex, bytes, hhex, hbytes, rfl⟩
    · exact Or.inr ⟨habsent, by simpa using hrelax⟩
    · obtain ⟨-, subjectHex, formulaHex, subjectJam, formulaJam, kernelJam, env, t, hsubject,
        hformula, hsj, hfj, hread, hsetup, hverify⟩ :=
        (verifyStarkSection_eq_ok hn (hexDecodeEven_present hhex hbytes)).mp hstark
      exact Or.inl ⟨hex, subjectHex, formulaHex, bytes, subjectJam, formulaJam, kernelJam, env, t,
        hhex, hsubject, hformula, hbytes, hsj, hfj, hread, hsetup, hverify⟩
  · rintro (⟨hex, subjectHex, formulaHex, bytes, subjectJam, formulaJam, kernelJam, env, t, hhex,
      hsubject, hformula, hbytes, hsj, hfj, hread, hsetup, hverify⟩ | ⟨habsent, hrelax⟩)
    · exact ⟨some bytes, true,
        decodeRecursiveProof_eq_ok.mpr (Or.inr ⟨hex, bytes, hhex, hbytes, rfl⟩),
        (verifyStarkSection_eq_ok hn (hexDecodeEven_present hhex hbytes)).mpr ⟨rfl, subjectHex,
          formulaHex, subjectJam, formulaJam, kernelJam, env, t, hsubject, hformula, hsj, hfj, hread,
          hsetup, hverify⟩, rfl⟩
    · exact ⟨none, false, decodeRecursiveProof_eq_ok.mpr (Or.inl ⟨habsent, rfl⟩), rfl, by simp [hrelax]⟩

/-! ## The row of a bundle -/

/-- The row of a bundle passes when there is none, when the kernel confirms it, or when the flag
allows the absence of a snapshot. -/
theorem value_passes (hn : c.NounLaws) {root : List UInt8} :
    (∃ accOk, verifyValueSection c host cli bundle root = .ok accOk) ↔
    bundle.value = none ∨ (∃ e, Confirmed host cli bundle root e) ∨
      (present bundle.accumulatorSnapshotJamHex = none ∧ cli.allowMissingZIn = true) := by
  cases hvalue : bundle.value with
  | none =>
    refine iff_of_true ⟨false, ?_⟩ (Or.inl rfl)
    unfold verifyValueSection
    rw [hvalue]
  | some v =>
    have hsome : bundle.value.isSome = true := by rw [hvalue]; rfl
    simp only [verifyValueSection_eq_ok hn hsome, reduceCtorEq, false_or]
    constructor
    · rintro ⟨accOk, ⟨-, hconfirmed⟩ | ⟨-, hrelax⟩⟩
      · exact Or.inl hconfirmed
      · exact Or.inr hrelax
    · rintro (hconfirmed | hrelax)
      · exact ⟨true, Or.inl ⟨rfl, hconfirmed⟩⟩
      · exact ⟨false, Or.inr ⟨rfl, hrelax⟩⟩

/-! ## The verdict -/

/-- The headers of a bundle lead to the checkpoint of the flags. -/
structure HeadersVerify (host : Host Acc Vesl) (cli : Cli) (bundle : PathY4LookupBundle) : Prop where
  verified : ∃ height text digest lastDigest,
    cli.checkpointHeight = some height ∧ cli.checkpointDigestHex = some text ∧
    hexDecodeEven text = .ok digest ∧ hexDecodeEven bundle.lastProvedDigestHex = .ok lastDigest ∧
    verifyHeaderChainToCheckpoint host.overflowChecks bundle.lastProvedHeight lastDigest
      ⟨height, digest⟩ bundle.headersToCheckpoint = .ok ()

/-- Every check of a bundle passes, or is skipped because its input is absent and its flag is
given. -/
structure Accepts (host : Host Acc Vesl) (cli : Cli) (bundle : PathY4LookupBundle)
    (root : List UInt8) : Prop where
  zInProof : ∀ nodes ∈ bundle.zInProof, nodes = []
  headers : HeadersVerify host cli bundle
  proof : StarkConfirmed host cli bundle ∨
    (present bundle.recursiveProofHex = none ∧ cli.allowEmptyRecursive = true)
  row : bundle.value = none ∨ (∃ e, Confirmed host cli bundle root e) ∨
    (present bundle.accumulatorSnapshotJamHex = none ∧ cli.allowMissingZIn = true)

/-- The preview of a checkpoint digest ends within a character. -/
def CutsCharacter (text : String) : Prop :=
  12 < (utf8 text).length ∧ ∀ kept, utf8 kept ≠ (utf8 text).take 5

theorem truncateHex_eq_ok {text : String} :
    (∃ shown, truncateHex text 12 = .ok shown) ↔ ¬CutsCharacter text := by
  unfold truncateHex CutsCharacter
  dsimp only
  by_cases hlen : (utf8 text).length ≤ 12
  · rw [if_pos hlen]
    exact iff_of_true ⟨_, rfl⟩ fun h => absurd h.1 (by omega)
  · rw [if_neg hlen]
    cases hkept : fromUtf8 ((utf8 text).take 5) with
    | some kept =>
      exact iff_of_true ⟨kept ++ "…", rfl⟩ fun h => h.2 kept (fromUtf8_eq_some.mp hkept)
    | none =>
      refine iff_of_false ?_ (not_not.mpr ⟨by omega, fun kept hk => ?_⟩)
      · simp
      · rw [fromUtf8_eq_some.mpr hk] at hkept
        cases hkept

/-- The binary ends with 0 when the bundle passes and the preview of the checkpoint is printed. -/
theorem exitCode_main (hn : c.NounLaws) {root : List UInt8}
    (hroot : hexDecodeEven bundle.accumulatorRootHex = .ok root) :
    exitCode (main c host cli bundle) = 0 ↔
      Accepts host cli bundle root ∧ ∀ text ∈ cli.checkpointDigestHex, ¬CutsCharacter text := by
  have hz : bundle.zInProof.all List.isEmpty = true ↔ ∀ nodes ∈ bundle.zInProof, nodes = [] := by
    cases bundle.zInProof <;> simp
  rw [exitCode_eq_zero]
  simp only [main_eq_ok]
  constructor
  · rintro ⟨lines, d, starkOk, accOk, shown, hd, hp, hshown, -⟩
    obtain rfl := Except.ok.inj (hd.accumulatorRoot.symm.trans hroot)
    refine ⟨?_, fun text htext => ?_⟩
    · exact {
        zInProof := hz.mp hp.zInProof
        headers := ⟨_, _, _, _, hd.cpHeight, hd.cpHex, hd.checkpointDigest, hd.lastDigest,
          hp.headers⟩
        proof := (stark_passes hn).mp ⟨_, _, hd.recursiveBytes, hp.stark, hp.recursive⟩
        row := (value_passes hn).mp ⟨_, hp.value⟩ }
    · obtain rfl := Option.some.inj (hd.cpHex.symm.trans htext)
      exact truncateHex_eq_ok.mp ⟨shown, hshown⟩
  · rintro ⟨⟨hzIn, ⟨height, text, digest, lastDigest, hheight, htext, hdigest, hlast, hheaders⟩,
      hproof, hrow⟩, hcut⟩
    obtain ⟨proofJam, starkOk, hdecode, hstark, hrelax⟩ := (stark_passes hn).mpr hproof
    obtain ⟨accOk, hvalue⟩ := (value_passes hn).mpr hrow
    obtain ⟨shown, hshown⟩ := truncateHex_eq_ok.mpr (hcut text htext)
    exact ⟨_, ⟨height, text, digest, lastDigest, root, proofJam⟩, starkOk, accOk, shown,
      ⟨hheight, htext, hdigest, hlast, hroot, hdecode⟩,
      ⟨hz.mpr hzIn, hstark, hrelax, hvalue, hheaders⟩, hshown, rfl⟩

/-- The binary ends with 0 exactly on the bundles that pass, on every one if the preview of the
checkpoint cuts no character. Whatever the relax flags, a proof and a snapshot that are present have
been confirmed, and with none of them so has the row of a bundle that has one.

Of the texts of a bundle only that of the root has to decode whether or not a check uses it. -/
theorem main_verdict (hn : c.NounLaws) (cli : Cli) (bundle : PathY4LookupBundle) (root : List UInt8)
    (hroot : hexDecodeEven bundle.accumulatorRootHex = .ok root) :
    ((exitCode (main c host cli bundle) = 0 ↔ Accepts host cli bundle root) ↔
      (∀ text ∈ cli.checkpointDigestHex, ¬CutsCharacter text) ∨ ¬Accepts host cli bundle root) ∧
    (∀ emptyRecursive missingZIn,
      exitCode (main c host
        { cli with allowEmptyRecursive := emptyRecursive, allowMissingZIn := missingZIn } bundle)
        = 0 →
      (present bundle.recursiveProofHex ≠ none → StarkConfirmed host cli bundle) ∧
      (bundle.value ≠ none → present bundle.accumulatorSnapshotJamHex ≠ none →
        ∃ e, Confirmed host cli bundle root e)) ∧
    (cli.allowEmptyRecursive = false → cli.allowMissingZIn = false → bundle.value ≠ none →
      exitCode (main c host cli bundle) = 0 →
      StarkConfirmed host cli bundle ∧ ∃ e, Confirmed host cli bundle root e) := by
  refine ⟨?_, fun emptyRecursive missingZIn hrun => ?_, fun hproof hsnapshot hvalue hrun => ?_⟩
  · rw [exitCode_main hn hroot]
    constructor
    · intro h
      by_cases hpass : Accepts host cli bundle root
      · exact Or.inl (h.mpr hpass).2
      · exact Or.inr hpass
    · rintro (hcut | hfail)
      · exact ⟨fun h => h.1, fun h => ⟨h, hcut⟩⟩
      · exact iff_of_false (fun h => hfail h.1) hfail
  · obtain ⟨⟨-, -, hproof, hrow⟩, -⟩ := (exitCode_main hn hroot).mp hrun
    constructor
    · intro hpresent
      rcases hproof with hconfirmed | ⟨habsent, -⟩
      · exact ⟨hconfirmed.verified⟩
      · exact absurd habsent hpresent
    · intro hvalue hpresent
      rcases hrow with hnone | ⟨e, hconfirmed⟩ | ⟨habsent, -⟩
      · exact absurd hnone hvalue
      · exact ⟨e, hconfirmed.row, hconfirmed.verified⟩
      · exact absurd habsent hpresent
  · obtain ⟨⟨-, -, hp, hr⟩, -⟩ := (exitCode_main hn hroot).mp hrun
    constructor
    · rcases hp with hconfirmed | ⟨-, hrelax⟩
      · exact hconfirmed
      · exact absurd hrelax (by simp [hproof])
    · rcases hr with hnone | hconfirmed | ⟨-, hrelax⟩
      · exact absurd hnone hvalue
      · exact hconfirmed
      · exact absurd hrelax (by simp [hsnapshot])

/-- A bundle with a proof, a snapshot and the row of the winner, and with the headers from its cursor
down to the block before. -/
def headedBundle : PathY4LookupBundle :=
  { exported contestedAccumulator "a.nock" winnerValue with
    zInProof := some []
    headersToCheckpoint := [⟨63000, "07", "05"⟩, ⟨62999, "05", "03"⟩] }

/-- A run with no relax flag, for a checkpoint at the last of those headers. -/
def checkpointCli : Cli := ⟨some 62999, some "05", "nns.jam", false, false⟩

theorem not_cutsCharacter_checkpointCli : ∀ text ∈ checkpointCli.checkpointDigestHex,
    ¬CutsCharacter text := by
  rintro text ⟨⟩
  exact fun h => absurd h.1 (by decide)

theorem headedBundle_accepts : Accepts sampleHost checkpointCli headedBundle
    (sampleCrates.asNeBytes (rootOf contestedAccumulator)) where
  zInProof := by simp [headedBundle]
  headers := ⟨62999, "05", [5], [7], rfl, rfl, by decide, by decide, by decide⟩
  proof := by
    have hproof : hexDecodeEven "02" = .ok [2] := by decide
    have hsubject : hexDecodeEven "04" = .ok [4] := by decide
    have hformula : hexDecodeEven "06" = .ok [6] := by decide
    refine Or.inl ⟨"02", "04", "06", [2], [4], [6], [], provenEnv, fresh provenEnv, by decide,
      by decide, by decide, hproof, hsubject, hformula, rfl, rfl, ?_⟩
    decide +kernel
  row := by
    obtain ⟨hrow, hverified⟩ := exported_confirmed contestedAccumulator_root
      (claimedRow_winner contestedAccumulator) contestedAccumulator_get
    exact Or.inr (Or.inl ⟨winnerRow, hrow, hverified⟩)

theorem main_verdict_confirmed :
    exitCode (main sampleCrates sampleHost checkpointCli headedBundle) = 0 ∧
    StarkConfirmed sampleHost checkpointCli headedBundle ∧
    ∃ e, Confirmed sampleHost checkpointCli headedBundle
      (sampleCrates.asNeBytes (rootOf contestedAccumulator)) e := by
  obtain ⟨hverdict, -, hstrict⟩ := main_verdict sampleCrates_nounLaws checkpointCli headedBundle
    (sampleCrates.asNeBytes (rootOf contestedAccumulator)) (hexDecodeEven_hexEncode _)
  have hexit : exitCode (main sampleCrates sampleHost checkpointCli headedBundle) = 0 :=
    (hverdict.mpr (Or.inl not_cutsCharacter_checkpointCli)).mpr headedBundle_accepts
  exact ⟨hexit, hstrict rfl rfl (by simp [headedBundle, exported]) hexit⟩

/-- A bundle without a row, a proof or headers, at a cursor with a digest of four bytes. -/
def bareBundle : PathY4LookupBundle where
  name := "a.nock"
  value := none
  lastProvedHeight := 63000
  lastProvedDigestHex := "07070707"
  accumulatorRootHex := "00"
  recursiveProofHex := some " "
  recursiveSubjectJamHex := none
  recursiveFormulaJamHex := none
  accumulatorSnapshotJamHex := none
  zInProof := some []
  headersToCheckpoint := []

/-- A run with both relax flags, for a checkpoint at the cursor of that bundle. -/
def relaxedCli (checkpointDigestHex : String) : Cli :=
  ⟨some 63000, some checkpointDigestHex, "nns.jam", true, true⟩

theorem bareBundle_accepts {text : String} (h : hexDecodeEven text = .ok [7, 7, 7, 7]) :
    Accepts sampleHost (relaxedCli text) bareBundle [0] where
  zInProof := by simp [bareBundle]
  headers := ⟨63000, text, [7, 7, 7, 7], [7, 7, 7, 7], rfl, rfl, h, by decide,
    by decide⟩
  proof := Or.inr ⟨by decide, rfl⟩
  row := Or.inl rfl

/-- The digest padded with two ideographic spaces, which trimming takes off and which the fifth byte
of the text is within. -/
def paddedDigest : String := "\u3000\u300007070707"

theorem main_cuts_character :
    ¬(exitCode (main sampleCrates sampleHost (relaxedCli paddedDigest) bareBundle) = 0 ↔
      Accepts sampleHost (relaxedCli paddedDigest) bareBundle [0]) := by
  have hdigest : hexDecodeEven paddedDigest = .ok [7, 7, 7, 7] := by decide
  have hpanic : main sampleCrates sampleHost (relaxedCli paddedDigest) bareBundle
      = .error .panic := by
    decide
  rw [hpanic]
  exact fun h => absurd (h.mpr (bareBundle_accepts hdigest)) (by decide)

end NnsVerified.Hull.LightVerify
