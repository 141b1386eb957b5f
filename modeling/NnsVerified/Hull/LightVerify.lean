import NnsVerified.Hull.Kernel
import NnsVerified.Hull.WalletY4
import NnsVerified.Kernel.Interface

/-!
# `light_verify.rs`

The offline verifier of lookup bundles, with the kernel that it boots for each of its pokes.
-/

namespace NnsVerified.Hull.LightVerify

open NnsVerified.Hoon NnsVerified.Library NnsVerified.Kernel

/-- `Cli`: the parsed flags. -/
structure Cli where
  checkpointHeight : Option UInt64
  checkpointDigestHex : Option String
  kernelJamPath : String
  allowEmptyRecursive : Bool
  allowMissingZIn : Bool
  deriving DecidableEq, Repr

/-- What the binary uses of the machine that it runs on. -/
structure Host (Acc Vesl : Type) where
  /-- `std::fs::read`. -/
  readFile : String → Except String (List UInt8)
  /-- `boot::setup`, in a directory of its own: the kernel that a jam holds. -/
  setup : List UInt8 → Except String (Env Acc Vesl)
  /-- The `Debug` rendering of the error of a crashed poke. -/
  debugFault : Fault → String
  overflowChecks : Bool

/-- The exit codes of the binary, other than `0`. -/
inductive ExitCode where
  | headerChain
  | badInput
  | missingFlags
  | kernelError
  | emptyProof
  | missingSnapshot
  | mismatch
  deriving DecidableEq, Repr

/-- The number of an exit code. -/
def ExitCode.code : ExitCode → Nat
  | headerChain => 1
  | badInput => 2
  | missingFlags => 5
  | kernelError => 7
  | emptyProof => 8
  | missingSnapshot => 9
  | mismatch => 10

/-- How the binary ends early: with a panic, or with a code and a message. -/
inductive Exit where
  | panic
  | exit (code : ExitCode) (message : String)
  deriving DecidableEq, Repr

/-- Exit with a code where a call fails. -/
def orExit {α : Type} (code : ExitCode) (context : String) : Except Failure α → Except Exit α
  | .ok a => .ok a
  | .error .panic => .error .panic
  | .error (.message e) => .error (.exit code (context ++ e))

/-- Exit with a code where a value is missing. -/
def required {α : Type} (code : ExitCode) (message : String) : Option α → Except Exit α
  | some a => .ok a
  | none => .error (.exit code message)

/-- Exit with a code unless a condition holds. -/
def ensure (condition : Bool) (code : ExitCode) (message : String) : Except Exit Unit :=
  if condition then .ok () else .error (.exit code message)

variable {H Z L Acc Vesl : Type} (c : Crates H Z L) (host : Host Acc Vesl)

/-! ## The pokes -/

/-- The common part of the offline pokes: boot the kernel, poke it, and read the loobean of the
result. -/
def verifyOffline (context result : String) (firstError : List Noun → Option String)
    (firstResult : List Noun → Option Bool) (kernelJam : List UInt8) (input : Noun) :
    Except String Bool := do
  let env ← (host.setup kernelJam).mapError fun e => s!"kernel boot: {e}"
  let (effects, _) ← (poke env (fresh env) input).mapError fun e =>
    s!"{context}: {host.debugFault e}"
  let fx := effects.map Effect.noun
  match firstError fx with
  | some msg => .error msg
  | none =>
    match firstResult fx with
    | some ok => .ok ok
    | none => .error s!"kernel emitted no %{result}"

/-- `verify_stark_explicit_offline`: asks a kernel of its own for a verdict on a proof. -/
def verifyStarkExplicitOffline (kernelJam proofJam subjectJam formulaJam : List UInt8) :
    Except String Bool :=
  verifyOffline host "verify poke" "verify-stark-result" (firstVerifyStarkError c)
    (firstVerifyStarkResult c) kernelJam
    (buildVerifyStarkExplicitPoke c proofJam subjectJam formulaJam)

/-- `verify_accumulator_snapshot_offline`: asks a kernel of its own whether a snapshot has the root
and the row. -/
def verifyAccumulatorSnapshotOffline (kernelJam expectedRoot accJam : List UInt8)
    (name owner : String) (txHash : List UInt8) (claimHeight : UInt64) (blockDigest : List UInt8) :
    Except String Bool :=
  verifyOffline host "accumulator verify poke" "accumulator-snapshot-verify-result"
    (firstAccumulatorSnapshotVerifyError c) (firstAccumulatorSnapshotVerifyResult c) kernelJam
    (buildVerifyAccumulatorSnapshotPoke c expectedRoot accJam name owner txHash claimHeight
      blockDigest)

/-- `kernel_jam_bytes`. -/
def kernelJamBytes (path : String) : Except Failure (List UInt8) :=
  (host.readFile path).mapError fun e => .message s!"read kernel jam {path}: {e}"

/-- Exit unless the kernel answers `%.y`. -/
def confirmed (falseCode : ExitCode) (falseMessage context : String)
    (answer : Except String Bool) : Except Exit Bool :=
  match answer with
  | .ok true => .ok true
  | .ok false => .error (.exit falseCode falseMessage)
  | .error msg => .error (.exit .kernelError (context ++ msg ++ " (exit 7)"))

/-! ## The checks -/

/-- The proof of the bundle, decoded before anything is verified. A blank proof counts as absent. -/
def decodeRecursiveProof (bundle : PathY4LookupBundle) : Except Exit (Option (List UInt8)) :=
  match bundle.recursiveProofHex with
  | none => .ok none
  | some s =>
    let t := trim s
    if t.isEmpty then .ok none
    else (orExit .badInput "error: recursive_proof_hex: " (hexDecodeEven t)).map some

/-- Whether a field is there and not blank. -/
def present (field : Option String) : Option String :=
  (field.map trim).filter fun s => !s.isEmpty

/-- `verify_stark_section`: whether a proof was verified. Without one there is nothing to do. -/
def verifyStarkSection (cli : Cli) (bundle : PathY4LookupBundle)
    (recursiveBytes : Option (List UInt8)) : Except Exit Bool :=
  match recursiveBytes with
  | none => .ok false
  | some b =>
    if b.isEmpty then .ok false
    else
      match present bundle.recursiveSubjectJamHex, present bundle.recursiveFormulaJamHex with
      | some sj, some fj => do
        let subjectJam ← orExit .badInput "error: recursive_subject_jam_hex: " (hexDecodeEven sj)
        let formulaJam ← orExit .badInput "error: recursive_formula_jam_hex: " (hexDecodeEven fj)
        let kernelJam ← orExit .kernelError "error: " (kernelJamBytes host cli.kernelJamPath)
        confirmed .kernelError "error: Vesl STARK verify returned false (exit 7)"
          "error: STARK verify / kernel: "
          (verifyStarkExplicitOffline c host kernelJam b subjectJam formulaJam)
      | _, _ => .error (.exit .kernelError ("error: non-empty recursive_proof_hex requires both " ++
          "recursive_subject_jam_hex and recursive_formula_jam_hex (exit 7)"))

/-- `parse_entry_hex`: the transaction and the block of a row. -/
def parseEntryHex (v : AccumulatorEntryJson) : Except Failure (List UInt8 × List UInt8) := do
  let tx ← hexDecodeEven (trim v.txHashHex)
  let bd ← hexDecodeEven (trim v.blockDigestHex)
  return (tx, bd)

/-- The block of `main` that checks the row of the bundle. -/
def verifyValueSection (cli : Cli) (bundle : PathY4LookupBundle) (accumulatorRoot : List UInt8) :
    Except Exit Bool :=
  match bundle.value with
  | none => .ok false
  | some v =>
    match present bundle.accumulatorSnapshotJamHex with
    | some sh => do
      let accJam ← orExit .badInput "error: accumulator_snapshot_jam_hex: " (hexDecodeEven sh)
      let (txHash, blockDigest) ← orExit .badInput "error: value tx/block hex: " (parseEntryHex v)
      let kernelJam ← orExit .kernelError "error: " (kernelJamBytes host cli.kernelJamPath)
      confirmed .mismatch "error: accumulator snapshot does not match root and/or entry (exit 10)"
        "error: accumulator verify / kernel: "
        (verifyAccumulatorSnapshotOffline c host kernelJam accumulatorRoot accJam (trim bundle.name)
          (trim v.owner) txHash v.claimHeight blockDigest)
    | none => do
      ensure cli.allowMissingZIn .missingSnapshot
        ("error: bundle has `value` but no accumulator_snapshot_jam_hex — pass " ++
          "--allow-missing-z-in-proof or --path-y2-dev (exit 9)")
      return false

/-! ## The report -/

/-- `truncate_hex`. A cut within a character panics. -/
def truncateHex (s : String) (max : Nat) : Except Exit String :=
  let bytes := utf8 s
  if bytes.length ≤ max then .ok s
  else
    match fromUtf8 (bytes.take ((max - 1) / 2)) with
    | some kept => .ok (kept ++ "…")
    | none => .error .panic

/-- What `main` prints at its end. -/
def report (cli : Cli) (bundle : PathY4LookupBundle) (cpHeight : UInt64) (cpHex : String)
    (starkOk accOk : Bool) : List String :=
  [s!"verified: {bundle.name}", s!"  last_proved_height: {bundle.lastProvedHeight}",
    s!"  checkpoint: height={cpHeight} ({cpHex}…)",
    if bundle.value.isSome then "  value: present" else "  value: absent"] ++
  (if cli.allowEmptyRecursive && cli.allowMissingZIn then
      ["  mode: path-y2-dev (both Y2 relax flags set)"]
    else if cli.allowEmptyRecursive || cli.allowMissingZIn then
      [s!"  mode: partial Y2 relax (empty_recursive={cli.allowEmptyRecursive} " ++
        s!"missing_z_in={cli.allowMissingZIn})"]
    else []) ++
  ["checks:",
    if starkOk then "  [PASS] recursive Vesl STARK (%verify-stark-explicit)"
    else "  [SKIP] recursive Vesl STARK (empty / absent proof)",
    if bundle.value.isSome then
      if accOk then "  [PASS] z-map row (%verify-accumulator-snapshot)"
      else "  [SKIP] z-map row (no snapshot; Y2 relax)"
    else "  [SKIP] z-map row (no value in bundle)",
    "  [PASS] header chain to checkpoint"]

/-! ## The binary -/

/-- `main`, on parsed flags and a parsed bundle: the lines that it prints. -/
def main (cli : Cli) (bundle : PathY4LookupBundle) : Except Exit (List String) := do
  let cpHeight ← required .missingFlags "error: --checkpoint-height is required"
    cli.checkpointHeight
  let cpHex ← required .missingFlags "error: --checkpoint-digest-hex is required"
    cli.checkpointDigestHex
  let checkpointDigest ← orExit .missingFlags "error: bad checkpoint digest hex: "
    (hexDecodeEven cpHex)
  -- a bundle without the field passes
  ensure (bundle.zInProof.all List.isEmpty) .badInput
    ("error: non-empty z_in_proof is deprecated — use accumulator_snapshot_jam_hex " ++
      "from ?wallet_export=1 (exit 2)")
  let lastDigest ← orExit .badInput "error: bad last_proved_digest_hex: "
    (hexDecodeEven bundle.lastProvedDigestHex)
  let accumulatorRoot ← orExit .badInput "error: bad accumulator_root_hex: "
    (hexDecodeEven bundle.accumulatorRootHex)
  let recursiveBytes ← decodeRecursiveProof bundle
  let starkOk ← verifyStarkSection c host cli bundle recursiveBytes
  ensure (recursiveBytes.isSome || cli.allowEmptyRecursive) .emptyProof
    ("error: missing or empty recursive_proof_hex — pass " ++
      "--allow-empty-recursive-proof or --path-y2-dev until Y3 (exit 8)")
  let accOk ← verifyValueSection c host cli bundle accumulatorRoot
  orExit .headerChain "header chain verification failed: "
    (verifyHeaderChainToCheckpoint host.overflowChecks bundle.lastProvedHeight lastDigest
      ⟨cpHeight, checkpointDigest⟩ bundle.headersToCheckpoint)
  let shown ← truncateHex cpHex 12
  return report cli bundle cpHeight shown starkOk accOk

/-- The exit code of a run. -/
def exitCode {α : Type} : Except Exit α → Nat
  | .ok _ => 0
  | .error (.exit code _) => code.code
  | .error .panic => 101

end NnsVerified.Hull.LightVerify
