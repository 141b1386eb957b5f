import NnsVerified.Kernel.Interface
import NnsVerified.Kernel.Parity

/-!
# The diagnostic peeks

`/kernel-debug` lists the state: the rows of the accumulator in the order of their names, what the
graft has registered and settled, and the inputs of the last proof. The paths of `+peek-tracer-parity`
run the oracles of `tracer-parity.hoon`.
-/

namespace NnsVerified.Kernel

open NnsVerified.Hoon

/-! ## `/kernel-debug` -/

/-- The lists of the graft: `~(tap by registered.vesl)` and `~(tap in settled.vesl)`. -/
structure GraftViews (Vesl : Type) where
  registered : Vesl → List (Nat × Nat)
  settled : Vesl → List Nat

/-- `/kernel-debug`. -/
def kernelDebugPath : Noun := .cell (.atom (cord "kernel-debug")) (.atom 0)

/-- A row of `acc-out`: an entry, under the name of its item. -/
def debugRow (item : Nat × NnsAccumulatorEntry) : NnsAccumulatorEntry :=
  { item.2 with name := item.1 }

variable {Acc Vesl : Type} (env : PeekEnv Acc Vesl) (views : GraftViews Vesl)

/-- `acc-sorted`. -/
def debugRows (s : State Acc Vesl) : List NnsAccumulatorEntry :=
  sort (fun a b => decide (a.name < b.name)) ((toList env.toEnv s.accumulator).map debugRow)

/-- The value at `/kernel-debug`. -/
def kernelDebug (s : State Acc Vesl) : Eval Noun := do
  let regList := sort (fun a b => decide (a.1 < b.1)) (views.registered s.vesl)
  let settledList := sort (fun a b => decide (a < b)) (views.settled s.vesl)
  let lpOut := s.lastProved.map fun u => Noun.cell (.atom (env.jam u.1)) (.atom (env.jam u.2))
  let root ← rootAtom env.toEnv s.accumulator
  pure (Noun.tuple (.atom 0) [.atom s.lastProvedHeight, .atom s.lastProvedDigest, .atom root,
    .atom (size env.toEnv s.accumulator),
    .list ((debugRows env s).map NnsAccumulatorEntry.noun),
    .list (regList.map fun r => .cell (.atom r.1) (.atom r.2)),
    .list (settledList.map .atom),
    unitNoun lpOut])

/-- The kernel with `/kernel-debug` among its other paths. -/
def PeekEnv.withDebug : PeekEnv Acc Vesl :=
  { env with
    otherPeek := fun s path =>
      if path = kernelDebugPath then do
        let value ← kernelDebug env views s
        pure (some (some value))
      else env.otherPeek s path }

/-! ## `+peek-tracer-parity` -/

/-- The path of a parity oracle. -/
def parityPath (tag : String) : Noun := .cell (.atom (cord tag)) (.atom 0)

/-- The claim of `/parity-trace-transition-full`. -/
def oracleClaim : NnsClaim :=
  ⟨cord "nockchain.nock", cord "o", 0, 1, ⟨1, 1, 0, 0⟩⟩

/-- `+peek-tracer-parity`: the three oracles; `~` for any other path. -/
def peekTracerParity (path : Noun) (acc : Acc) (lastProvedHeight lastProvedDigest genesisHeight : Nat) :
    Eval (Option (Option Noun)) := do
  if path = parityPath "parity-trace-genesis" then
    let ok ← parityGenesisTrace env.toEnv acc genesisHeight 0
    return some (some (Noun.loob ok))
  if path = parityPath "parity-trace-transition-empty" then
    let prevH := if lastProvedHeight > 0 then lastProvedHeight else genesisHeight
    let pageD := if lastProvedHeight > 0 then lastProvedDigest else 1
    let ok ← parityTransitionEmpty env.toEnv prevH pageD acc
    return some (some (Noun.loob ok))
  if path = parityPath "parity-trace-transition-full" then
    let ok ← parityTransitionFull env.toEnv (.atom 1) genesisHeight acc ⟨1, []⟩ [oracleClaim]
    return some (some (Noun.loob ok))
  return none

/-- The kernel with the parity oracles among its other paths. -/
def PeekEnv.withParity : PeekEnv Acc Vesl :=
  { env with
    otherPeek := fun s path => do
      let seeded ← ensureGenesisTld env.toEnv s.accumulator
      match ← peekTracerParity env path seeded s.lastProvedHeight s.lastProvedDigest
        nnsGenesisHeight with
      | some parity => pure (some parity)
      | none => env.otherPeek s path }

end NnsVerified.Kernel
