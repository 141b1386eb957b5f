import NnsVerified.Hull.Lookup
import NnsVerified.Kernel.Debug

/-!
# `api.rs`: the debug route

`debug_kernel_state` decodes the answer of the kernel to `/kernel-debug`. The readers of the parity
oracles stand beside its decoder in `kernel.rs`.
-/

namespace NnsVerified.Hull

open NnsVerified.Hoon NnsVerified.Library NnsVerified.Kernel

/-! ## `types.rs` -/

/-- `KernelDebugNameEntry`: a row of the accumulator. -/
structure KernelDebugNameEntry where
  name : String
  owner : String
  txHashHex : String
  claimHeight : UInt64
  blockDigestHex : String
  deriving DecidableEq, Repr

/-- `KernelDebugVeslRegistered`: a hull that is registered in the graft, with its root. -/
structure KernelDebugVeslRegistered where
  hullIdHex : String
  merkleRootHex : String
  deriving DecidableEq, Repr

/-- `KernelDebugVesl`: the state of the graft. -/
structure KernelDebugVesl where
  registered : List KernelDebugVeslRegistered
  settledNoteIdsHex : List String
  deriving DecidableEq, Repr

/-- `KernelDebugLastProved`: the jams of the pair that was proved last. -/
structure KernelDebugLastProved where
  subjectJamHex : String
  formulaJamHex : String
  deriving DecidableEq, Repr

/-- `KernelDebugResponse`: the answer of `GET /debug/kernel-state`. -/
structure KernelDebugResponse where
  version : UInt64
  lastProvedHeight : UInt64
  lastProvedDigestHex : String
  accumulatorRootHex : String
  accumulatorSize : UInt64
  names : List KernelDebugNameEntry
  vesl : KernelDebugVesl
  lastProved : Option KernelDebugLastProved
  deriving DecidableEq, Repr

/-! ## Decoding -/

/-- `list_elements`: the items up to the first atom. -/
def listElements : Noun → List Noun
  | .cell head tail => head :: listElements tail
  | .atom _ => []

variable {H Z L : Type} (c : Crates H Z L)

/-- `build_kernel_debug_peek`. -/
def buildKernelDebugPeek : Noun := singleTagPeek c "kernel-debug"

/-- `decode_kernel_debug_name_row`: the five fields of a row. -/
def decodeKernelDebugNameRow (sn : Noun) : Except String KernelDebugNameEntry := do
  let (name, r1) ← uncons sn
  let (owner, r2) ← uncons r1
  let (tx, r3) ← uncons r2
  let (ch, bd) ← uncons r3
  let name ← asCord c name
  let owner ← asCord c owner
  let txHash ← asNeBytes c tx
  let claimHeight ← (asU64 c ch).mapError fun _ => "kernel-debug: claim_height overflows u64"
  let blockDigest ← asNeBytes c bd
  return ⟨name, owner, hexEncode txHash, claimHeight, hexEncode blockDigest⟩

/-- A registered hull, as `decode_kernel_debug` reads it. -/
def decodeRegistered (pair : Noun) : Except String KernelDebugVeslRegistered := do
  let (hull, root) ← uncons pair
  let hull ← asNeBytes c hull
  let root ← asNeBytes c root
  return ⟨hexEncode hull, hexEncode root⟩

/-- `decode_optional_jam_pair`: a unit of two jams. -/
def decodeOptionalJamPair (sn : Noun) : Except String (Option KernelDebugLastProved) := do
  if isAtom sn then return none
  let (_, pair) ← (uncons sn).mapError fun _ => "kernel-debug: last_proved not unit"
  let (sj, fj) ← (uncons pair).mapError fun _ => "kernel-debug: last_proved inner not pair"
  let sj ← asNeBytes c sj
  let fj ← asNeBytes c fj
  return some ⟨hexEncode sj, hexEncode fj⟩

/-- `decode_kernel_debug`: the version, which must be `0`, and the eight fields after it. -/
def decodeKernelDebug (result : Noun) : Except String KernelDebugResponse := do
  let inner ← peekUnwrapSome result
  let (ver, n0) ← uncons inner
  let ver ← (asU64 c ver).mapError fun _ => "kernel-debug: version not u64"
  if ver ≠ 0 then throw s!"kernel-debug: unknown version {ver}"
  let (h, n1) ← uncons n0
  let (digest, n2) ← uncons n1
  let (root, n3) ← uncons n2
  let (size, n4) ← uncons n3
  let (accList, n5) ← uncons n4
  let (regList, n6) ← uncons n5
  let (settled, lp) ← uncons n6
  let lastProvedHeight ← (asU64 c h).mapError fun _ => "kernel-debug: height overflows u64"
  let lastProvedDigest ← asNeBytes c digest
  let accumulatorRoot ← asNeBytes c root
  let accumulatorSize ← (asU64 c size).mapError fun _ => "kernel-debug: size overflows u64"
  let names ← (listElements accList).mapM (decodeKernelDebugNameRow c)
  let registered ← (listElements regList).mapM (decodeRegistered c)
  let settledNoteIds ← (listElements settled).mapM (asNeBytes c)
  let lastProved ← decodeOptionalJamPair c lp
  return {
    version := ver
    lastProvedHeight
    lastProvedDigestHex := hexEncode lastProvedDigest
    accumulatorRootHex := hexEncode accumulatorRoot
    accumulatorSize
    names
    vesl := ⟨registered, settledNoteIds.map hexEncode⟩
    lastProved }

/-! ## The parity oracles -/

/-- `build_parity_trace_genesis_peek`. -/
def buildParityTraceGenesisPeek : Noun := singleTagPeek c "parity-trace-genesis"

/-- `build_parity_trace_transition_empty_peek`. -/
def buildParityTraceTransitionEmptyPeek : Noun := singleTagPeek c "parity-trace-transition-empty"

/-- `build_parity_trace_transition_full_peek`. -/
def buildParityTraceTransitionFullPeek : Noun := singleTagPeek c "parity-trace-transition-full"

/-- `decode_parity_trace_bool`: a loobean. -/
def decodeParityTraceBool (result : Noun) : Except String Bool := do
  let inner ← peekUnwrapSome result
  let v ← (asU64 c inner).mapError fun _ => "parity-trace peek: expected loobean atom"
  return v = 0

/-! ## The handler -/

variable {Acc Vesl : Type} (env : PeekEnv Acc Vesl)

/-- `debug_kernel_state`, on the kernel that it locks. -/
def debugKernelState (s : State Acc Vesl) : Except ApiError KernelDebugResponse := do
  let answer ← (peekNoun env s (buildKernelDebugPeek c)).mapError fun _ =>
    serverError "kernel kernel-debug peek failed"
  (decodeKernelDebug c answer).mapError fun e => serverError s!"decode kernel-debug: {e}"

end NnsVerified.Hull
