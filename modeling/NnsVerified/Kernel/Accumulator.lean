import NnsVerified.Hoon.Sort
import NnsVerified.Kernel.Env

/-!
# `nns-accumulator.hoon`

The registry: a z-map from the digest of a name to its row, with first-writer-wins insertion and a
Tip5 root over the rows in the order of their names. A hashable is the noun that Tip5 hashes:
`[%leaf belt]`, `[%list hashables]`, or a pair of hashables.
-/

namespace NnsVerified.Kernel

open NnsVerified.Hoon NnsVerified.Library

variable {Acc Vesl : Type}

/-- `+atom-u32-le`: the little-endian limbs of an atom in base `2 ^ 32`. -/
def atomU32Le (a : Nat) : List Nat :=
  if a = 0 then [] else a % 2 ^ 32 :: atomU32Le (a / 2 ^ 32)
termination_by a
decreasing_by exact Nat.div_lt_self (by omega) (by norm_num)

/-- `leaf+w`. -/
def leaf (w : Nat) : Noun := .cell (.atom (cord "leaf")) (.atom w)

/-- `[%list hs]`. -/
def hashableList (hs : List Noun) : Noun := .cell (.atom (cord "list")) (Noun.list hs)

/-- `+hashable-atom-chunks`: an atom as a list of small leaves. -/
def hashableAtomChunks (a : Nat) : Noun := hashableList ((atomU32Le a).map leaf)

/-- `+hashable-entry`: the value of a row. -/
def hashableEntry (ent : NnsAccumulatorEntry) : Noun :=
  hashableList [hashableAtomChunks ent.owner, hashableAtomChunks ent.txHash, leaf ent.claimHeight,
    hashableAtomChunks ent.blockDigest]

/-- The hashable of a row: the chunks of its name, and its entry. -/
def hashableRow (ent : NnsAccumulatorEntry) : Noun :=
  .cell (hashableAtomChunks ent.name) (hashableEntry ent)

variable (env : Env Acc Vesl)

/-- `+name-key`: the digest of a name, as a key. -/
def nameKey (name : Nat) : Eval NnsNameKey := env.hashHashable (hashableAtomChunks name)

/-- `+apt`: every row has a name, an owner and a transaction hash. -/
def apt (acc : Acc) : Bool :=
  (env.zBy.tap acc).all fun row =>
    decide (met 3 row.2.name ≠ 0) && decide (met 3 row.2.owner ≠ 0) && decide (row.2.txHash ≠ 0)

/-- `+has`. -/
def has (acc : Acc) (name : Nat) : Eval Bool := do
  let k ← nameKey env name
  env.zBy.has acc k

/-- `+get`. -/
def get (acc : Acc) (name : Nat) : Eval (Option NnsAccumulatorEntry) := do
  let k ← nameKey env name
  env.zBy.get acc k

/-- `+insert`: first writer wins. -/
def insert (acc : Acc) (name : Nat) (entry : NnsAccumulatorEntry) : Eval Acc := do
  let k ← nameKey env name
  if ← env.zBy.has acc k then pure acc else env.zBy.put acc k { entry with name := name }

/-- `+hashable-accumulator`: the rows, in the order of their names. -/
def hashableAccumulator (acc : Acc) : Noun :=
  let rows := sort (fun a b => decide (a.2.name < b.2.name)) (env.zBy.tap acc)
  hashableList (rows.map fun row => hashableRow row.2)

/-- `+root`, `+root-from-hashable`. -/
def root (acc : Acc) : Eval NounDigest := env.hashHashable (hashableAccumulator env acc)

/-- `+root-atom`: the root as one atom. -/
def rootAtom (acc : Acc) : Eval Nat := do
  let d ← root env acc
  pure (env.digestToAtom d)

/-- `+size`. -/
def size (acc : Acc) : Nat := env.zBy.wyt acc

/-- `+from-list`: insert the items in order. -/
def fromList (items : List (Nat × NnsAccumulatorEntry)) : Eval Acc :=
  items.foldlM (fun acc item => insert env acc item.1 { item.2 with name := item.1 }) env.zBy.nul

/-- `+to-list`. -/
def toList (acc : Acc) : List (Nat × NnsAccumulatorEntry) :=
  (env.zBy.tap acc).map fun row => (row.2.name, row.2)

end NnsVerified.Kernel
