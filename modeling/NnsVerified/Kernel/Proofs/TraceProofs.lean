import NnsVerified.Hoon.Nock
import NnsVerified.Kernel.Tracer

/-!
# The products of the trace formulas

What a trace constraint says of a subject, and the product of the formula that `+compile-trace` makes
of a list of them. `+trace-eq-limb-pairs` ends in `[1 1]`, the formula that fails, so no
`%eq-digest-limbs` constraint is ever accepted; nor is the empty specification.
-/

namespace NnsVerified.Kernel

open NnsVerified.Hoon NnsVerified.Hoon.Noun

/-! ## What a constraint says -/

/-- The axes that a constraint mentions. -/
def TraceConstraint.axes : TraceConstraint → List Nat
  | nonzero axis => [axis]
  | eq axis _ => [axis]
  | eqDigestLimbs pairs => pairs.flatMap fun p => [p.1, p.2]
  | fww candAxis accAxis => [candAxis, accAxis]

/-- The constraint holds of a subject. -/
def TraceConstraint.Holds (subj : Noun) : TraceConstraint → Prop
  | nonzero axis => slot axis subj ≠ some (.atom 0)
  | eq axis lit => slot axis subj = some (.atom lit)
  | eqDigestLimbs pairs => ∀ p ∈ pairs, slot p.1 subj = slot p.2 subj
  | fww candAxis accAxis =>
    slot candAxis subj = some (.atom 0) ∨ slot candAxis subj ≠ slot accAxis subj

instance (subj : Noun) : DecidablePred (TraceConstraint.Holds subj)
  | .nonzero axis => inferInstanceAs (Decidable (slot axis subj ≠ some (.atom 0)))
  | .eq axis lit => inferInstanceAs (Decidable (slot axis subj = some (.atom lit)))
  | .eqDigestLimbs pairs =>
    inferInstanceAs (Decidable (∀ p ∈ pairs, slot p.1 subj = slot p.2 subj))
  | .fww candAxis accAxis =>
    inferInstanceAs (Decidable
      (slot candAxis subj = some (.atom 0) ∨ slot candAxis subj ≠ slot accAxis subj))

/-- The constraint compares digests. -/
def TraceConstraint.isDigest : TraceConstraint → Bool
  | eqDigestLimbs _ => true
  | _ => false

/-- Every axis that a constraint mentions exists in the subject. -/
def TraceConstraint.Fits (subj : Noun) (c : TraceConstraint) : Prop :=
  ∀ ax ∈ c.axes, (slot ax subj).isSome

instance (subj : Noun) (c : TraceConstraint) : Decidable (c.Fits subj) :=
  inferInstanceAs (Decidable (∀ ax ∈ c.axes, (slot ax subj).isSome))

theorem TraceConstraint.Fits.slot {subj : Noun} {c : TraceConstraint} (h : c.Fits subj) {ax : Nat}
    (hax : ax ∈ c.axes) : ∃ p, slot ax subj = some p :=
  Option.isSome_iff_exists.mp (h ax hax)

/-! ## Formulas -/

/-- A formula with a loobean for its product accepts when that is the true one. -/
theorem yields_zero_iff {subj form : Noun} {x : Bool} (h : Yields subj form (loob x)) :
    Yields subj form (.atom 0) ↔ x = true := by
  constructor
  · intro hzero
    simpa [loob] using h.unique hzero
  · rintro rfl
    exact h

section

variable {subj p q f g : Noun} {x y : Bool}

theorem yields_traceTrue (subj : Noun) : Yields subj (traceLit 0) (loob true) := yields_const subj _

theorem yields_traceFalse (subj : Noun) : Yields subj (traceLit 1) (loob false) :=
  yields_const subj _

theorem yields_tracePick {ax : Nat} (h : slot ax subj = some p) : Yields subj (tracePick ax) p :=
  yields_slot h

theorem yields_traceEq {ax : Nat} (h : slot ax subj = some p) (n : Nat) :
    Yields subj (traceEq (tracePick ax) (traceLit n)) (loob (p = .atom n)) :=
  yields_eq (yields_tracePick h) (yields_const subj _)

theorem yields_traceEqPicks {ax bx : Nat} (hp : slot ax subj = some p) (hq : slot bx subj = some q) :
    Yields subj (traceEq (tracePick ax) (tracePick bx)) (loob (p = q)) :=
  yields_eq (yields_tracePick hp) (yields_tracePick hq)

theorem yields_traceAnd (hf : Yields subj f (loob x)) (hg : Yields subj g (loob y)) :
    Yields subj (traceAnd f g) (loob (x && y)) := by
  have hinner := yields_cond hg (yields_traceTrue subj) (yields_traceFalse subj)
  have hboth := yields_cond hf hinner (yields_traceFalse subj)
  have hvalue : (bif x then (bif y then true else false) else false) = (x && y) := by
    cases x <;> cases y <;> rfl
  rwa [hvalue] at hboth

theorem yields_traceNonzero {ax : Nat} (h : slot ax subj = some p) :
    Yields subj (traceNonzero ax) (loob (p ≠ .atom 0)) := by
  have hcond := yields_cond (yields_traceEq h 0) (yields_traceFalse subj) (yields_traceTrue subj)
  have hvalue : (bif decide (p = .atom 0) then false else true) = decide (p ≠ .atom 0) := by
    by_cases hp : p = .atom 0 <;> simp [hp]
  rwa [hvalue] at hcond

theorem yields_traceFww {candAxis accAxis : Nat} (hcand : slot candAxis subj = some p)
    (hacc : slot accAxis subj = some q) :
    Yields subj (traceFww candAxis accAxis) (loob (p = .atom 0 ∨ p ≠ q)) := by
  have hsame := yields_cond (yields_traceEqPicks hacc hcand) (yields_traceFalse subj)
    (yields_traceTrue subj)
  have hcond := yields_cond (yields_traceEq hcand 0) (yields_traceTrue subj) hsame
  have hvalue : (bif decide (p = .atom 0) then true else
      bif decide (q = p) then false else true) = decide (p = .atom 0 ∨ p ≠ q) := by
    by_cases hp : p = .atom 0
    · simp [hp]
    · by_cases hq : q = p
      · simp [hp, hq]
      · simp [hp, hq, Ne.symm hq]
  rwa [hvalue] at hcond

/-- No comparison of digests is accepted, whatever the pairs. -/
theorem yields_traceEqLimbPairs {pairs : List (Nat × Nat)}
    (h : (TraceConstraint.eqDigestLimbs pairs).Fits subj) :
    Yields subj (traceEqLimbPairs pairs) (loob false) := by
  induction pairs with
  | nil => exact yields_traceFalse subj
  | cons pair t ih =>
    obtain ⟨p, hp⟩ := h.slot (show pair.1 ∈ _ by simp [TraceConstraint.axes])
    obtain ⟨q, hq⟩ := h.slot (show pair.2 ∈ _ by simp [TraceConstraint.axes])
    have hrest : (TraceConstraint.eqDigestLimbs t).Fits subj := by
      intro ax hax
      refine h ax ?_
      simp only [TraceConstraint.axes, List.flatMap_cons, List.mem_append]
      exact Or.inr hax
    have hand := yields_traceAnd (yields_traceEqPicks hp hq) (ih hrest)
    rwa [Bool.and_false] at hand

/-! ## Specifications -/

/-- A constraint that its formula accepts: it holds, and it compares no digests. -/
def TraceConstraint.accepted (subj : Noun) (c : TraceConstraint) : Bool :=
  decide (c.Holds subj) && !c.isDigest

theorem yields_traceNode {c : TraceConstraint} (h : c.Fits subj) :
    Yields subj (traceNode c) (loob (c.accepted subj)) := by
  cases c with
  | nonzero axis =>
    obtain ⟨p, hp⟩ := h.slot (show axis ∈ _ by simp [TraceConstraint.axes])
    have hvalue : (TraceConstraint.nonzero axis).accepted subj = decide (p ≠ .atom 0) := by
      simp [TraceConstraint.accepted, TraceConstraint.Holds, TraceConstraint.isDigest, hp]
    rw [hvalue]
    exact yields_traceNonzero hp
  | eq axis lit =>
    obtain ⟨p, hp⟩ := h.slot (show axis ∈ _ by simp [TraceConstraint.axes])
    have hvalue : (TraceConstraint.eq axis lit).accepted subj = decide (p = .atom lit) := by
      simp [TraceConstraint.accepted, TraceConstraint.Holds, TraceConstraint.isDigest, hp]
    rw [hvalue]
    exact yields_traceEq hp lit
  | eqDigestLimbs pairs =>
    have hvalue : (TraceConstraint.eqDigestLimbs pairs).accepted subj = false := by
      simp [TraceConstraint.accepted, TraceConstraint.isDigest]
    rw [hvalue]
    exact yields_traceEqLimbPairs h
  | fww candAxis accAxis =>
    obtain ⟨p, hp⟩ := h.slot (show candAxis ∈ _ by simp [TraceConstraint.axes])
    obtain ⟨q, hq⟩ := h.slot (show accAxis ∈ _ by simp [TraceConstraint.axes])
    have hvalue : (TraceConstraint.fww candAxis accAxis).accepted subj
        = decide (p = .atom 0 ∨ p ≠ q) := by
      simp [TraceConstraint.accepted, TraceConstraint.Holds, TraceConstraint.isDigest, hp, hq]
    rw [hvalue]
    exact yields_traceFww hp hq

/-- A specification that its formula accepts. -/
def traceAccepted (subj : Noun) (spec : List TraceConstraint) : Bool :=
  !spec.isEmpty && spec.all fun c => c.accepted subj

/-- The product of a compiled specification. -/
theorem yields_compileTrace {spec : List TraceConstraint} (h : ∀ c ∈ spec, c.Fits subj) :
    Yields subj (compileTrace spec) (loob (traceAccepted subj spec)) := by
  induction spec with
  | nil => exact yields_traceFalse subj
  | cons c t ih =>
    have hnode := yields_traceNode (h c (List.mem_cons_self ..))
    cases t with
    | nil =>
      have hvalue : traceAccepted subj [c] = c.accepted subj := by simp [traceAccepted]
      rw [hvalue]
      exact hnode
    | cons d t =>
      have hrest := ih fun e he => h e (List.mem_cons_of_mem c he)
      have hvalue : traceAccepted subj (c :: d :: t)
          = (c.accepted subj && traceAccepted subj (d :: t)) := by simp [traceAccepted]
      rw [hvalue]
      exact yields_traceAnd hnode hrest

theorem traceAccepted_iff {spec : List TraceConstraint} :
    traceAccepted subj spec = true ↔
      spec ≠ [] ∧ (∀ c ∈ spec, c.Holds subj) ∧ ∀ c ∈ spec, c.isDigest = false := by
  unfold traceAccepted
  rw [Bool.and_eq_true, List.all_eq_true]
  refine and_congr (by simp) ?_
  rw [← forall₂_and]
  simp [TraceConstraint.accepted]

end

/-! ## The genesis specification -/

/-- The constraints of the genesis formula. -/
def genesisSpec : List TraceConstraint := [.nonzero 2, .eq 6 nnsGenesisHeight, .eq 7 0]

/-- The subject that a genesis formula runs on. -/
def genesisSubject (height digest : Nat) : Noun := tuple (.atom 1) [.atom height, .atom digest]

theorem slot_genesisSubject (height digest : Nat) :
    slot 2 (genesisSubject height digest) = some (.atom 1) ∧
      slot 6 (genesisSubject height digest) = some (.atom height) ∧
      slot 7 (genesisSubject height digest) = some (.atom digest) := by
  have hlast : slot (2 ^ (2 + 1) - 1) (genesisSubject height digest)
      = some (tuple (.atom digest) []) := slot_rest rfl
  exact ⟨slot_part (k := 0) rfl, slot_part (k := 1) rfl, hlast⟩

theorem genesis_fits (height digest : Nat) :
    ∀ c ∈ genesisSpec, c.Fits (genesisSubject height digest) := by
  obtain ⟨hacc, hheight, hdigest⟩ := slot_genesisSubject height digest
  simp [genesisSpec, TraceConstraint.Fits, TraceConstraint.axes, hacc, hheight, hdigest]

theorem genesis_holds_iff (height digest : Nat) :
    (∀ c ∈ genesisSpec, c.Holds (genesisSubject height digest)) ↔
      height = nnsGenesisHeight ∧ digest = 0 := by
  obtain ⟨hacc, hheight, hdigest⟩ := slot_genesisSubject height digest
  simp [genesisSpec, TraceConstraint.Holds, hacc, hheight, hdigest]

theorem traceAccepted_genesis (height digest : Nat) :
    traceAccepted (genesisSubject height digest) genesisSpec
      = decide (height = nnsGenesisHeight ∧ digest = 0) := by
  have hdigest : ∀ c ∈ genesisSpec, c.isDigest = false := by decide
  rw [Bool.eq_iff_iff, traceAccepted_iff, genesis_holds_iff, decide_eq_true_iff]
  exact ⟨fun h => h.2.1, fun h => ⟨List.cons_ne_nil _ _, h, hdigest⟩⟩

/-- The genesis formula accepts exactly the genesis height and digest. -/
theorem yields_genesis (height digest : Nat) :
    Yields (genesisSubject height digest) (genesisTraceFormula nnsGenesisHeight)
      (loob (height = nnsGenesisHeight ∧ digest = 0)) := by
  have hproduct := yields_compileTrace (genesis_fits height digest)
  rwa [traceAccepted_genesis] at hproduct

/-! ## What the compiler gets right -/

/-- A compiled specification has the right product on a subject exactly where a constraint fails, or
there is a constraint and none compares digests. -/
theorem compileTrace_right_iff (spec : List TraceConstraint) (subj : Noun)
    (hfits : ∀ c ∈ spec, c.Fits subj) :
    Yields subj (compileTrace spec) (.atom (if ∀ c ∈ spec, c.Holds subj then 0 else 1)) ↔
      (∃ c ∈ spec, ¬c.Holds subj) ∨ spec ≠ [] ∧ ∀ c ∈ spec, c.isDigest = false := by
  have hproduct := yields_compileTrace hfits
  by_cases hall : ∀ c ∈ spec, c.Holds subj
  · have hnone : ¬∃ c ∈ spec, ¬c.Holds subj := by
      rintro ⟨c, hc, hfails⟩
      exact hfails (hall c hc)
    rw [if_pos hall, or_iff_right hnone, yields_zero_iff hproduct, traceAccepted_iff]
    constructor
    · rintro ⟨hne, -, hdigest⟩
      exact ⟨hne, hdigest⟩
    · rintro ⟨hne, hdigest⟩
      exact ⟨hne, hall, hdigest⟩
  · have hsome : ∃ c ∈ spec, ¬c.Holds subj := by
      push Not at hall
      exact hall
    rw [if_neg hall]
    refine iff_of_true ?_ (Or.inl hsome)
    have hrejected : traceAccepted subj spec = false := by
      refine Bool.eq_false_iff.mpr fun haccepted => ?_
      exact hall (traceAccepted_iff.mp haccepted).2.1
    rwa [hrejected] at hproduct

/-- The genesis constraints on the genesis subject. -/
theorem compileTrace_right_genesis :
    Yields (genesisSubject nnsGenesisHeight 0) (compileTrace genesisSpec)
      (.atom (if ∀ c ∈ genesisSpec, c.Holds (genesisSubject nnsGenesisHeight 0) then 0 else 1)) :=
  (compileTrace_right_iff genesisSpec (genesisSubject nnsGenesisHeight 0) (genesis_fits _ _)).mpr
    (Or.inr ⟨List.cons_ne_nil _ _, by decide⟩)

/-- A digest that is compared with itself is rejected. -/
theorem compileTrace_digest_rejected : ¬∀ (spec : List TraceConstraint) (subj : Noun),
    (∀ c ∈ spec, c.Fits subj) →
    Yields subj (compileTrace spec) (.atom (if ∀ c ∈ spec, c.Holds subj then 0 else 1)) := by
  intro h
  have htwo : slot 2 (cell (atom 7) (atom 7)) = some (atom 7) := slot_even (slot_one _)
  have hthree : slot 3 (cell (atom 7) (atom 7)) = some (atom 7) := slot_odd (slot_one _)
  have hfits : (TraceConstraint.eqDigestLimbs [(2, 3)]).Fits (cell (atom 7) (atom 7)) := by
    simp [TraceConstraint.Fits, TraceConstraint.axes, htwo, hthree]
  have hholds : (TraceConstraint.eqDigestLimbs [(2, 3)]).Holds (cell (atom 7) (atom 7)) := by
    simp [TraceConstraint.Holds, htwo, hthree]
  have hzero := h [.eqDigestLimbs [(2, 3)]] (cell (atom 7) (atom 7)) (by simpa using hfits)
  rw [if_pos (by simpa using hholds)] at hzero
  exact absurd ((yields_traceEqLimbPairs hfits).unique hzero) (by simp [loob])

end NnsVerified.Kernel
