import NnsVerified.Hoon.Atom
import NnsVerified.Library.FiniteMap

/-!
# What the kernel imports

The kernel builds on libraries of the chain (`zeke`, `zoon`) and of the prover (`vesl-*`) that are
not part of this repository. An `Env` is a choice of their arms. The type of z-maps and the type of
graft states are parameters, since the kernel never looks inside them.

The laws that the results rely on are stated here as propositions about an `Env`, so that each
result names the ones it uses.
-/

namespace NnsVerified.Kernel

open NnsVerified.Hoon NnsVerified.Library

/-- The Goldilocks prime: a belt is an atom below it. -/
def goldilocks : Nat := 2 ^ 64 - 2 ^ 32 + 1

/-- `noun-digest:tip5`: five limbs. -/
structure NounDigest where
  d0 : Nat
  d1 : Nat
  d2 : Nat
  d3 : Nat
  d4 : Nat
  deriving DecidableEq, Repr, Inhabited

/-- Every limb of the digest is a belt. -/
def NounDigest.Based (d : NounDigest) : Prop :=
  d.d0 < goldilocks ∧ d.d1 < goldilocks ∧ d.d2 < goldilocks ∧ d.d3 < goldilocks ∧ d.d4 < goldilocks

/-- `+$nns-name-key`: the key of a row, the digest of its name. -/
abbrev NnsNameKey := NounDigest

/-- `+$nns-accumulator-entry`: a row of the registry. -/
structure NnsAccumulatorEntry where
  name : Nat
  owner : Nat
  txHash : Nat
  claimHeight : Nat
  blockDigest : Nat
  deriving DecidableEq, Repr, Inhabited

/-- The causes of the graft. -/
inductive VeslTag where
  | register
  | verify
  | settle
  deriving DecidableEq, Repr

/-- The imported arms. -/
structure Env (Acc Vesl : Type) where
  /-- `hash-hashable:tip5:z`, on the noun of a hashable. -/
  hashHashable : Noun → Eval NounDigest
  /-- `digest-to-atom:tip5:z`. -/
  digestToAtom : NounDigest → Nat
  /-- `z-by`, on accumulators. -/
  zBy : MapOps Fault Acc NnsNameKey NnsAccumulatorEntry
  /-- The mold `nns-accumulator`, a `z-map`. -/
  clamAccumulator : Noun → Option Acc
  /-- The noun that an accumulator is. -/
  accumulatorNoun : Acc → Noun
  jam : Noun → Nat
  cue : Nat → Eval Noun
  /-- `prove-computation:vp`. -/
  proveComputation : Noun → Noun → Nat → Nat → Eval (Except Noun Noun)
  /-- The mold `proof`. -/
  clamProof : Noun → Option Noun
  /-- `verify:vv`, with no override and start `0`. -/
  verify : Noun → Noun → Noun → Eval Bool
  /-- `verify-chunk` of `vesl-merkle`. -/
  verifyChunk : Nat → List (Nat × Bool) → Nat → Eval Bool
  /-- Whether the body of a graft cause fits `+$vesl-cause`. -/
  clamVesl : VeslTag → Noun → Bool
  veslBunt : Vesl
  veslPoke : Vesl → VeslTag → Noun → (Noun → Nat → Eval Bool) → Eval (List Noun × Vesl)
  /-- The compiled core of the predicates, `..validate-claim-bundle-linear`. -/
  npCore : Noun
  /-- The compiled constant `+validator-arm-axis`. -/
  validatorArmAxis : Nat
  fuel : Nat

/-! ## Laws -/

/-- A hashable whose leaves are belts. -/
inductive BeltHashable : Noun → Prop where
  | leaf {a : Nat} (h : a < goldilocks) :
      BeltHashable (.cell (.atom (cord "leaf")) (.atom a))
  | list {hs : List Noun} (h : ∀ x ∈ hs, BeltHashable x) :
      BeltHashable (.cell (.atom (cord "list")) (Noun.list hs))
  | pair {p q : Noun} (hp : BeltHashable p) (hq : BeltHashable q) : BeltHashable (.cell p q)

variable {Acc Vesl : Type}

/-- Tip5 hashes every hashable whose leaves are belts, to a digest whose limbs are belts. -/
structure Env.HashLaws (env : Env Acc Vesl) : Prop where
  total : ∀ {h}, BeltHashable h → ∃ d, env.hashHashable h = .ok d
  based : ∀ {h d}, env.hashHashable h = .ok d → d.Based

/-- The laws of the hash are about the hash alone. -/
theorem Env.HashLaws.congr {env env' : Env Acc Vesl} (h : env.HashLaws)
    (hhash : env'.hashHashable = env.hashHashable) : env'.HashLaws where
  total := by
    rw [hhash]
    exact h.total
  based := by
    rw [hhash]
    exact h.based

/-- A z-map is a lawful finite map, on keys whose limbs are belts. -/
def Env.MapLaws (env : Env Acc Vesl) : Prop := env.zBy.Lawful NounDigest.Based

/-- The mold of accumulators accepts every accumulator that the kernel builds. -/
def Env.MoldLaws (env : Env Acc Vesl) : Prop :=
  ∀ acc, env.zBy.Built NounDigest.Based acc →
    env.clamAccumulator (env.accumulatorNoun acc) = some acc

/-- `cue` undoes `jam`. -/
def Env.JamLaws (env : Env Acc Vesl) : Prop := ∀ n, env.cue (env.jam n) = .ok n

end NnsVerified.Kernel
