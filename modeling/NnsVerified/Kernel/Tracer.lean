import NnsVerified.Kernel.Predicates

/-!
# `tx-witness.hoon`, `tracer.hoon` and `recursive-build.hoon`

The subjects and formulas that the recursive proof traces: digests as five limbs, trace constraints
and their compilation to Nock, and the builders of the genesis and the transition inputs.
-/

namespace NnsVerified.Kernel

open NnsVerified.Hoon NnsVerified.Library

/-- `+nns-genesis-height`: no block below it is scanned. -/
def nnsGenesisHeight : Nat := 63000

/-! ## Digests -/

/-- `+pad-digest-atom-40`. The zero bytes that it appends are gone again in the atom, and so are
those within. -/
def padDigestAtom40 (d : Nat) : Nat :=
  if met 3 d ≥ 40 then d else rap 3 (rip 3 d ++ List.replicate (40 - met 3 d) 0)

/-- `+from-hull-atom`, on an atom. -/
def fromHullAtom (d : Nat) : NounDigest :=
  let buf := padDigestAtom40 d
  ⟨cut 3 0 8 buf, cut 3 8 8 buf, cut 3 16 8 buf, cut 3 24 8 buf, cut 3 32 8 buf⟩

/-! ## Trace formulas -/

/-- `+slot-axis`: the axis of a slot of a tuple, counted from `1`. -/
def slotAxis (slot : Nat) : Nat := 2 ^ (slot + 1) - 2

/-- The named axes of a subject without a claim. -/
structure EmptyAxes where
  prevH : Nat
  d0 : Nat
  d1 : Nat
  d2 : Nat
  d3 : Nat
  d4 : Nat
  wantH : Nat
  w0 : Nat
  w1 : Nat
  w2 : Nat
  w3 : Nat
  w4 : Nat

/-- `+empty-axes`. -/
def emptyAxes : EmptyAxes where
  prevH := slotAxis 1
  d0 := slotAxis 2
  d1 := slotAxis 3
  d2 := slotAxis 4
  d3 := slotAxis 5
  d4 := slotAxis 6
  wantH := slotAxis 7
  w0 := slotAxis 8
  w1 := slotAxis 9
  w2 := slotAxis 10
  w3 := slotAxis 11
  w4 := slotAxis 12

/-- The named axes of a subject with a claim. -/
structure FullAxes where
  proofLen : Nat
  prevH : Nat
  d0 : Nat
  d1 : Nat
  d2 : Nat
  d3 : Nat
  d4 : Nat
  accTag : Nat
  candTag : Nat
  block : Nat
  wantH : Nat
  w0 : Nat
  w1 : Nat
  w2 : Nat
  w3 : Nat
  w4 : Nat

/-- `+full-axes`. -/
def fullAxes : FullAxes where
  proofLen := slotAxis 1
  prevH := slotAxis 2
  d0 := slotAxis 3
  d1 := slotAxis 4
  d2 := slotAxis 5
  d3 := slotAxis 6
  d4 := slotAxis 7
  accTag := slotAxis 8
  candTag := slotAxis 9
  block := slotAxis 10
  wantH := slotAxis 11
  w0 := slotAxis 12
  w1 := slotAxis 13
  w2 := slotAxis 14
  w3 := slotAxis 15
  w4 := slotAxis 16

/-- `+empty-page-want-limb-pairs`: the limbs of the page digest beside those that are wanted. -/
def emptyPageWantLimbPairs : List (Nat × Nat) :=
  let ax := emptyAxes
  [(ax.d0, ax.w0), (ax.d1, ax.w1), (ax.d2, ax.w2), (ax.d3, ax.w3), (ax.d4, ax.w4)]

/-- `+full-page-want-limb-pairs`. -/
def fullPageWantLimbPairs : List (Nat × Nat) :=
  let ax := fullAxes
  [(ax.d0, ax.w0), (ax.d1, ax.w1), (ax.d2, ax.w2), (ax.d3, ax.w3), (ax.d4, ax.w4)]

/-- `+trace-pick`: fetches an axis. -/
def tracePick (axis : Nat) : Noun := .cell (.atom 0) (.atom axis)

/-- `+trace-lit`: a constant. -/
def traceLit (x : Nat) : Noun := .cell (.atom 1) (.atom x)

/-- `+trace-succeeded`: what the dry run takes for a success. -/
def traceSucceeded (product : Noun) : Bool := product ≠ .cell (.atom 1) (.atom 1)

/-- `+trace-eq`: `0` if two products are equal. -/
def traceEq (a b : Noun) : Noun := Noun.tuple (.atom 5) [a, b]

/-- `+trace-and`: `0` if both formulas produce `0`, and `1` otherwise. -/
def traceAnd (p q : Noun) : Noun :=
  Noun.tuple (.atom 6) [p, Noun.tuple (.atom 6) [q, traceLit 0, traceLit 1], traceLit 1]

/-- `+trace-nonzero`: `0` unless the axis holds `0`. -/
def traceNonzero (axis : Nat) : Noun :=
  Noun.tuple (.atom 6) [traceEq (tracePick axis) (traceLit 0), traceLit 1, traceLit 0]

/-- `+trace-eq-limb-pairs`: the conjunction over the pairs, which ends in the constant `1`. -/
def traceEqLimbPairs : List (Nat × Nat) → Noun
  | [] => traceLit 1
  | (pa, wa) :: t => traceAnd (traceEq (tracePick pa) (tracePick wa)) (traceEqLimbPairs t)

/-- `+trace-eq-based-digests-empty`. -/
def traceEqBasedDigestsEmpty : Noun := traceEqLimbPairs emptyPageWantLimbPairs

/-- `+trace-eq-based-digests-full`. -/
def traceEqBasedDigestsFull : Noun := traceEqLimbPairs fullPageWantLimbPairs

/-- `+trace-fww`: first writer wins, on the tag of the candidate and that of the accumulator. -/
def traceFww (candAxis accAxis : Nat) : Noun :=
  Noun.tuple (.atom 6) [traceEq (tracePick candAxis) (traceLit 0), traceLit 0,
    Noun.tuple (.atom 6) [traceEq (tracePick accAxis) (tracePick candAxis), traceLit 1, traceLit 0]]

/-- `+$trace-constraint`. -/
inductive TraceConstraint where
  | nonzero (axis : Nat)
  | eq (axis lit : Nat)
  | eqDigestLimbs (pairs : List (Nat × Nat))
  | fww (candAxis accAxis : Nat)
  deriving DecidableEq, Repr

/-- The formula of one constraint. -/
def traceNode : TraceConstraint → Noun
  | .nonzero axis => traceNonzero axis
  | .eq axis lit => traceEq (tracePick axis) (traceLit lit)
  | .eqDigestLimbs pairs => traceEqLimbPairs pairs
  | .fww candAxis accAxis => traceFww candAxis accAxis

/-- `+compile-trace`: the conjunction of the constraints. -/
def compileTrace : List TraceConstraint → Noun
  | [] => traceLit 1
  | [c] => traceNode c
  | c :: t => traceAnd (traceNode c) (compileTrace t)

/-- `+genesis-trace-formula`, over the axes of `+genesis-axes`. -/
def genesisTraceFormula (genesisHeight : Nat) : Noun :=
  compileTrace [.nonzero 2, .eq 6 genesisHeight, .eq 7 0]

/-- `+transition-trace-formula-empty`: the axis of `want-h` in `+empty-axes`. -/
def transitionTraceFormulaEmpty (wantH : Nat) : Noun :=
  traceEq (tracePick (slotAxis 7)) (traceLit wantH)

/-- `+transition-trace-formula-full`: the axes of `proof-len`, `prev-h`, `cand-tag` and `acc-tag`
in `+full-axes`. -/
def transitionTraceFormulaFull (prevH _wantH : Nat) : Noun :=
  compileTrace [.nonzero (slotAxis 1), .eq (slotAxis 2) prevH, .fww (slotAxis 9) (slotAxis 8)]

/-- The limbs of a digest, as the atoms of a tuple. -/
def NounDigest.limbs (d : NounDigest) : List Noun :=
  [.atom d.d0, .atom d.d1, .atom d.d2, .atom d.d3, .atom d.d4]

/-- `+empty-transition-subject`: the subject of a block without a claim. -/
def emptyTransitionSubject (prevH : Nat) (page : NounDigest) (wantH : Nat) (want : NounDigest) : Noun :=
  Noun.tuple (.atom prevH) (page.limbs ++ .atom wantH :: want.limbs)

/-- `+full-transition-subject`: the subject of a block with a claim. -/
def fullTransitionSubject (proofLen prevH : Nat) (page : NounDigest) (accTag candTag : Nat)
    (block : Noun) (wantH : Nat) (want : NounDigest) : Noun :=
  Noun.tuple (.atom proofLen) (.atom prevH :: page.limbs ++
    .atom accTag :: .atom candTag :: block :: .atom wantH :: want.limbs)

/-! ## Builders -/

/-- `+build-genesis-recursive-inputs`: the subject and the formula. The accumulator limb is the
constant `1`. -/
def buildGenesisRecursiveInputs (height digest : Nat) : Noun × Noun :=
  (Noun.tuple (.atom 1) [.atom height, .atom digest], genesisTraceFormula nnsGenesisHeight)

variable {Acc Vesl : Type} (env : Env Acc Vesl)

/-- `+acc-list-head-key`: the axis `+2` of a row is its key, whose first limb is the tag. -/
def accListHeadKey : List (NnsNameKey × NnsAccumulatorEntry) → Nat
  | [] => 0
  | row :: _ => row.1.d0

/-- `+prekey-claims`: the claims with the keys of their names. -/
def prekeyClaims (claims : List NnsClaim) : Eval (List (NnsNameKey × NnsClaim)) :=
  claims.mapM fun c => do
    let k ← nameKey env c.name
    pure (k, c)

/-- `+build-recursive-transition-inputs`: the subject and the formula. -/
def buildRecursiveTransitionInputs (prevProof : Noun) (prevHeight : Nat) (oldAcc : Acc)
    (pag : NnsPageSummary) (claims : List NnsClaim) (blockProof : Noun) (wantDigest : Nat) :
    Eval (Noun × Noun) := do
  let wantHeight := prevHeight + 1
  let page := fromHullAtom pag.digest
  let want := fromHullAtom wantDigest
  if claims = [] then
    return (emptyTransitionSubject prevHeight page wantHeight want,
      transitionTraceFormulaEmpty wantHeight)
  let keyed ← prekeyClaims env claims
  if keyed.length > 1 then crash
  let accTag := accListHeadKey (env.zBy.tap oldAcc)
  let candTag := match keyed with
    | [] => 0
    | (key, _) :: _ => key.d0
  let proofLen := match prevProof with
    | .atom a => met 3 a
    | .cell _ _ => 0
  return (fullTransitionSubject proofLen prevHeight page accTag candTag blockProof wantHeight want,
    transitionTraceFormulaFull prevHeight wantHeight)

end NnsVerified.Kernel
