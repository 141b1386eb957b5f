import NnsVerified.Hull.Api
import NnsVerified.Hull.Hex
import NnsVerified.Hull.Kernel
import NnsVerified.Kernel.Interface
import NnsVerified.Library.Mutex

/-!
# `api.rs`: `GET /accumulator/:name`

The handler looks at the kernel five times while it holds the mutex. Its server is a machine of
tasks: the pokes that are sent to the kernel, and the requests.
-/

namespace NnsVerified.Hull

open NnsVerified.Hoon NnsVerified.Library NnsVerified.Kernel

/-! ## Messages -/

/-- A status code, with the text of the body. -/
structure ApiError where
  status : Nat
  error : String
  deriving DecidableEq, Repr

/-- `bad_request`. -/
def badRequest (msg : String) : ApiError := ⟨400, msg⟩

/-- `not_found`. -/
def notFound (msg : String) : ApiError := ⟨404, msg⟩

/-- `server_error`. -/
def serverError (msg : String) : ApiError := ⟨500, msg⟩

/-- `AccumulatorValueResponse`: the row of a name, with its digests in hex. -/
structure AccumulatorValueResponse where
  owner : String
  txHash : String
  claimHeight : UInt64
  blockDigest : String
  deriving DecidableEq, Repr

/-- `AccumulatorLookupResponse`: a row, the cursor that it was read at, and what a wallet exports. -/
structure AccumulatorLookupResponse where
  name : String
  value : Option AccumulatorValueResponse
  proofAxis : Option String
  accumulatorSnapshotHex : Option String
  recursiveProofHex : Option String
  recursiveSubjectJamHex : Option String
  recursiveFormulaJamHex : Option String
  lastProvedHeight : UInt64
  lastProvedDigest : String
  accumulatorRoot : String
  accumulatorSize : UInt64
  deriving DecidableEq, Repr

variable {H Z L : Type} (c : Crates H Z L)

/-! ## The handler -/

variable {Acc Vesl : Type} (env : PeekEnv Acc Vesl)

/-- One peek of the locked kernel, decoded. -/
def askKernel {α : Type} (what : String) (path : Noun) (decode : Noun → Except String α) :
    ExceptT ApiError (Critical (State Acc Vesl)) α :=
  Critical.ask fun s => do
    let answer ← (peekNoun env s path).mapError fun _ => serverError s!"kernel {what} peek failed"
    (decode answer).mapError fun e => serverError s!"decode {what} failed: {e}"

/-- What the handler reads from the kernel. -/
structure Lookup where
  entry : AccumulatorEntry
  proofAxis : Option (List UInt8)
  scanState : ScanState
  accumulatorSnapshotHex : Option String
  recursiveProof : Option (List UInt8 × List UInt8 × List UInt8)

/-- The snapshot, where it is asked for. -/
def snapshotSection (walletExport : Bool) :
    ExceptT ApiError (Critical (State Acc Vesl)) (Option String) :=
  if walletExport then do
    let jam ← askKernel env "accumulator-jam" (buildAccumulatorJamPeek c) (decodeAccumulatorJam c)
    pure (some (hexEncode jam))
  else pure none

/-- `accumulator_handler`, from the lock to the drop of the lock. -/
def accumulatorSection (name : String) (walletExport : Bool) :
    ExceptT ApiError (Critical (State Acc Vesl)) Lookup := do
  let entry ← askKernel env "accumulator" (buildAccumulatorPeek c name) (decodeAccumulatorEntry c)
  match entry with
  | none => throw (notFound "not registered")
  | some entry => do
    let proofAxis ← askKernel env "accumulator-proof" (buildAccumulatorProofPeek c name)
      (decodeAccumulatorProofAxis c)
    let scanState ← askKernel env "scan-state" (buildScanStatePeek c) (decodeScanState c)
    let accumulatorSnapshotHex ← snapshotSection c env walletExport
    let recursiveProof ← askKernel env "recursive-proof" (buildRecursiveProofPeek c)
      (decodeRecursiveProof c)
    pure { entry, proofAxis, scanState, accumulatorSnapshotHex, recursiveProof }

/-- The response of `accumulator_handler`. -/
def lookupResponse (name : String) (l : Lookup) : AccumulatorLookupResponse where
  name := name
  value := some {
    owner := l.entry.owner
    txHash := hexEncode l.entry.txHash
    claimHeight := l.entry.claimHeight
    blockDigest := hexEncode l.entry.blockDigest }
  proofAxis := l.proofAxis.map hexEncode
  accumulatorSnapshotHex := l.accumulatorSnapshotHex
  recursiveProofHex := l.recursiveProof.map fun rp => hexEncode rp.1
  recursiveSubjectJamHex := l.recursiveProof.map fun rp => hexEncode rp.2.1
  recursiveFormulaJamHex := l.recursiveProof.map fun rp => hexEncode rp.2.2
  lastProvedHeight := l.scanState.lastProvedHeight
  lastProvedDigest := hexEncode l.scanState.lastProvedDigest
  accumulatorRoot := hexEncode l.scanState.accumulatorRoot
  accumulatorSize := l.scanState.accumulatorSize

/-! ## The server -/

/-- What a task of the server does: one poke of the follower, or one request. -/
inductive ServerTask where
  | poke (input : Noun)
  | lookup (name : String) (walletExport : Bool)

/-- What it ends with. -/
inductive ServerResult where
  | poked
  | answered (r : Except ApiError AccumulatorLookupResponse)

/-- `accumulator_handler`: an invalid name is rejected before the lock. -/
def accumulatorHandler (name : String) (walletExport : Bool) :
    Task (State Acc Vesl) ServerResult :=
  if !isValidName name then .finished (.answered (.error (badRequest "invalid name")))
  else .waiting do
    let l ← (accumulatorSection c env name walletExport).run
    pure (.answered (l.map (lookupResponse name)))

/-- A poke of the locked kernel. -/
def pokeTask (input : Noun) : Task (State Acc Vesl) ServerResult :=
  .waiting do
    Critical.write fun s => nextState env.toEnv s input
    pure .poked

/-- A task before its first turn. -/
def ServerTask.start : ServerTask → Task (State Acc Vesl) ServerResult
  | poke input => pokeTask env input
  | lookup name walletExport => accumulatorHandler c env name walletExport

/-- The input of a poke. -/
def ServerTask.input : ServerTask → Option Noun
  | poke input => some input
  | lookup _ _ => none

variable {ι : Type} [DecidableEq ι] (tasks : ι → ServerTask)

/-- The server before any turn, on a fresh kernel. -/
def server : Machine ι (State Acc Vesl) ServerResult :=
  ⟨fresh env.toEnv, none, fun i => (tasks i).start c env⟩

/-- The pokes that a schedule finishes, in order. -/
def finishedPokes (schedule : List (Turn ι)) : List Noun :=
  (history turn (server c env tasks) schedule).filterMap fun i => (tasks i).input

/-! ## What a wallet does with a response -/

/-- The poke that verifies the row of a response against its snapshot and its root. `none` where the
response has no row or no snapshot, or is not hex. -/
def responsePoke (r : AccumulatorLookupResponse) : Option Noun := do
  let value ← r.value
  let snapshot ← r.accumulatorSnapshotHex
  let root ← (hexDecodeEven r.accumulatorRoot).toOption
  let accJam ← (hexDecodeEven snapshot).toOption
  let txHash ← (hexDecodeEven value.txHash).toOption
  let blockDigest ← (hexDecodeEven value.blockDigest).toOption
  return buildVerifyAccumulatorSnapshotPoke c root accJam r.name value.owner txHash
    value.claimHeight blockDigest

end NnsVerified.Hull
