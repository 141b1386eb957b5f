import Mathlib.Data.Nat.Pairing
import NnsVerified.Kernel.Interface

/-!
# A concrete kernel

The laws about the imported arms are consistent: `sampleEnv` satisfies all of them. Its maps are
association lists, its hash is a rolling sum that traps, as Tip5 does, on an atom that is not a
belt, its `jam` pairs numbers, and its prover always fails.
-/

namespace NnsVerified.Kernel

open NnsVerified.Hoon NnsVerified.Library

/-- The rolling hash. -/
def sampleFold : Noun → Eval Nat
  | .atom a => if a < goldilocks then .ok a else crash
  | .cell p q => do
    let x ← sampleFold p
    let y ← sampleFold q
    pure ((31 * x + 37 * y + 1) % goldilocks)

/-- The digest of a hashable, in its first limb. -/
def sampleHash (h : Noun) : Eval NounDigest := do
  let x ← sampleFold h
  pure ⟨x, 0, 0, 0, 0⟩

/-- A jam without backreferences. -/
def sampleJam : Noun → Nat
  | .atom a => 2 * a
  | .cell p q => 2 * Nat.pair (sampleJam p) (sampleJam q) + 1

/-- The inverse of `sampleJam`, with a bound on the depth of the noun. -/
def sampleCue : Nat → Nat → Noun
  | 0, _ => .atom 0
  | fuel + 1, n =>
    if n % 2 = 0 then .atom (n / 2)
    else .cell (sampleCue fuel (Nat.unpair (n / 2)).1) (sampleCue fuel (Nat.unpair (n / 2)).2)

/-- A row of the accumulator as a noun. -/
def sampleRowNoun (row : NnsNameKey × NnsAccumulatorEntry) : Noun :=
  .cell (Noun.tuple (.atom row.1.d0) [.atom row.1.d1, .atom row.1.d2, .atom row.1.d3, .atom row.1.d4])
    (Noun.tuple (.atom row.2.name) [.atom row.2.owner, .atom row.2.txHash, .atom row.2.claimHeight,
      .atom row.2.blockDigest])

/-- The mold of a row. -/
def sampleClamRow : Noun → Option (NnsNameKey × NnsAccumulatorEntry)
  | .cell (.cell (.atom d0) (.cell (.atom d1) (.cell (.atom d2) (.cell (.atom d3) (.atom d4)))))
      (.cell (.atom name) (.cell (.atom owner) (.cell (.atom txHash)
        (.cell (.atom height) (.atom digest))))) =>
    some (⟨d0, d1, d2, d3, d4⟩, ⟨name, owner, txHash, height, digest⟩)
  | _ => none

/-- An accumulator that is an association list, and a prover that fails. -/
def sampleEnv : Env (List (NnsNameKey × NnsAccumulatorEntry)) Unit where
  hashHashable := sampleHash
  digestToAtom d := d.d0
  zBy := assocOps Fault NnsNameKey NnsAccumulatorEntry
  clamAccumulator := clamList sampleClamRow
  accumulatorNoun acc := Noun.list (acc.map sampleRowNoun)
  jam := sampleJam
  cue n := .ok (sampleCue (n + 1) n)
  proveComputation _ _ _ _ := .ok (.error (.atom 0))
  clamProof n := some n
  verify _ _ _ := .ok false
  verifyChunk _ _ _ := .ok true
  clamVesl _ _ := true
  veslBunt := ()
  veslPoke _ _ _ _ := .ok ([], ())
  npCore := .atom 0
  validatorArmAxis := 1
  fuel := 100

theorem sampleFold_lt {h : Noun} {x : Nat} (hx : sampleFold h = .ok x) : x < goldilocks := by
  cases h with
  | atom a =>
    unfold sampleFold at hx
    split at hx
    · obtain rfl := Except.ok.inj hx
      assumption
    · simp [crash] at hx
  | cell p q =>
    obtain ⟨a, -, hx⟩ := bind_eq_ok hx
    obtain ⟨b, -, hx⟩ := bind_eq_ok hx
    obtain rfl := Except.ok.inj hx
    exact Nat.mod_lt _ (by decide)

theorem sampleFold_cell {p q : Noun} (hp : ∃ x, sampleFold p = .ok x)
    (hq : ∃ y, sampleFold q = .ok y) : ∃ z, sampleFold (.cell p q) = .ok z := by
  obtain ⟨x, hx⟩ := hp
  obtain ⟨y, hy⟩ := hq
  exact ⟨_, by simp only [sampleFold, hx, hy, ok_bind]; rfl⟩

theorem sampleFold_atom {a : Nat} (h : a < goldilocks) : ∃ x, sampleFold (.atom a) = .ok x :=
  ⟨a, by simp [sampleFold, h]⟩

theorem sampleFold_total {h : Noun} (hb : BeltHashable h) : ∃ x, sampleFold h = .ok x := by
  induction hb with
  | leaf ha => exact sampleFold_cell (sampleFold_atom (by decide)) (sampleFold_atom ha)
  | @list hs _ ih =>
    refine sampleFold_cell (sampleFold_atom (by decide)) ?_
    induction hs with
    | nil => exact sampleFold_atom (by decide)
    | cons x xs ihl =>
      exact sampleFold_cell (ih x (by simp)) (ihl (by simp_all) fun y hy => ih y (by simp [hy]))
  | pair _ _ hp hq => exact sampleFold_cell hp hq

theorem sampleEnv_hashLaws : sampleEnv.HashLaws where
  total hb := by
    obtain ⟨x, hx⟩ := sampleFold_total hb
    exact ⟨⟨x, 0, 0, 0, 0⟩, by simp [sampleEnv, sampleHash, hx]⟩
  based := by
    intro h d hd
    obtain ⟨x, hx, hd⟩ := bind_eq_ok hd
    obtain rfl := Except.ok.inj hd
    have hpos : 0 < goldilocks := by decide
    exact ⟨sampleFold_lt hx, hpos, hpos, hpos, hpos⟩

theorem sampleEnv_mapLaws : sampleEnv.MapLaws := assocOps_lawful _

theorem sampleEnv_clamAccumulator (acc : List (NnsNameKey × NnsAccumulatorEntry)) :
    sampleEnv.clamAccumulator (sampleEnv.accumulatorNoun acc) = some acc := by
  refine clamList_list (List.forall₂_map_left_iff.mpr (List.forall₂_same.mpr ?_))
  intro row _
  rfl

theorem sampleEnv_moldLaws : sampleEnv.MoldLaws := fun acc _ => sampleEnv_clamAccumulator acc

theorem sampleCue_sampleJam (n : Noun) (fuel : Nat) (h : sampleJam n < fuel) :
    sampleCue fuel (sampleJam n) = n := by
  induction n generalizing fuel with
  | atom a =>
    obtain ⟨fuel, rfl⟩ := Nat.exists_eq_succ_of_ne_zero (Nat.ne_zero_of_lt h)
    simp [sampleCue, sampleJam]
  | cell p q ihp ihq =>
    obtain ⟨fuel, rfl⟩ := Nat.exists_eq_succ_of_ne_zero (Nat.ne_zero_of_lt h)
    have hp := Nat.left_le_pair (sampleJam p) (sampleJam q)
    have hq := Nat.right_le_pair (sampleJam p) (sampleJam q)
    have hodd : (2 * Nat.pair (sampleJam p) (sampleJam q) + 1) % 2 ≠ 0 := by omega
    have hhalf : (2 * Nat.pair (sampleJam p) (sampleJam q) + 1) / 2
        = Nat.pair (sampleJam p) (sampleJam q) := by omega
    unfold sampleJam at h ⊢
    unfold sampleCue
    rw [if_neg hodd, hhalf, Nat.unpair_pair, ihp fuel (by omega), ihq fuel (by omega)]

theorem sampleEnv_jamLaws : sampleEnv.JamLaws := fun n =>
  congrArg Except.ok (sampleCue_sampleJam n _ (Nat.lt_succ_self _))

/-- The sample kernel with a prover that succeeds on every pair. -/
def provingEnv : Env (List (NnsNameKey × NnsAccumulatorEntry)) Unit :=
  { sampleEnv with proveComputation := fun _ _ _ _ => .ok (.ok (.cell (.atom 1) (.atom 1))) }

theorem provingEnv_hashLaws : provingEnv.HashLaws := sampleEnv_hashLaws.congr rfl

theorem provingEnv_mapLaws : provingEnv.MapLaws := sampleEnv_mapLaws

theorem provingEnv_jamLaws : provingEnv.JamLaws := sampleEnv_jamLaws

/-- The sample kernel with its peeks. -/
def samplePeekEnv : PeekEnv (List (NnsNameKey × NnsAccumulatorEntry)) Unit :=
  { sampleEnv with
    dig := fun _ _ => .ok none
    otherPeek := fun _ _ => .ok none }

/-- A claim that pays the treasury exactly its fee. -/
def paidClaim (name owner txHash : Nat) : NnsClaim :=
  ⟨name, owner, 327680000, txHash, ⟨txHash, owner, 327680000, cord treasuryLockRoot⟩⟩

end NnsVerified.Kernel
