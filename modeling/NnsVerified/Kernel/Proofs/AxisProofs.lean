import NnsVerified.Hoon.Formula
import NnsVerified.Kernel.Proofs.TraceProofs

/-!
# The axes of the transition subjects

`+slot-axis` gives the axis of a slot of a tuple, except for the last slot, which has no cell of its
own: there it gives the axis of the head of that slot. So `w4` is the one named axis that misses its
field, and a comparison of digests traps where it gets as far as the last pair of limbs.
-/

namespace NnsVerified.Kernel

open NnsVerified.Hoon NnsVerified.Hoon.Noun

/-! ## Slots of a tuple -/

theorem slot_two_atom (a : Nat) : slot 2 (atom a) = none := by
  rw [slot_child le_rfl, slot_one]

/-- At the last slot, the axis is that of its head. -/
theorem slot_slotAxis_last {x y : Noun} {xs : List Noun} {k : Nat} (h : (x :: xs).drop k = [y]) :
    slot (slotAxis (k + 1)) (tuple x xs) = slot 2 y := by
  have hcell : slot (2 ^ (k + 1) - 1) (tuple x xs) = some y := slot_rest h
  have hpos : 0 < 2 ^ k := by positivity
  have haxis : slotAxis (k + 1) = 2 * (2 ^ (k + 1) - 1) := by
    unfold slotAxis
    rw [Nat.pow_succ 2 (k + 1)]
    omega
  have hroot : slot 1 y = some y := slot_one y
  cases y with
  | cell p q =>
    rw [haxis, slot_even hcell]
    exact (slot_even hroot).symm
  | atom a =>
    have hhalf : 2 * (2 ^ (k + 1) - 1) / 2 = 2 ^ (k + 1) - 1 := by omega
    rw [haxis, slot_child (by rw [Nat.pow_succ]; omega), hhalf, hcell, slot_two_atom]

/-- No noun is its own head. -/
theorem slot_two_ne (y : Noun) : slot 2 y ≠ some y := by
  cases y with
  | atom a => simp [slot_two_atom]
  | cell p q =>
    rw [slot_even (slot_one (cell p q))]
    intro h
    have hsize := congrArg sizeOf (Option.some.inj h)
    simp at hsize
    omega

theorem slot_slotAxis_iff (x : Noun) (xs : List Noun) (k : Fin (x :: xs).length) :
    slot (slotAxis (k + 1)) (tuple x xs) = some ((x :: xs).get k) ↔
      k + 1 < (x :: xs).length := by
  have hdrop : (x :: xs).drop k = (x :: xs).get k :: (x :: xs).drop (k + 1) :=
    List.drop_eq_getElem_cons k.isLt
  cases hrest : (x :: xs).drop (k + 1) with
  | nil =>
    have hlast : ¬(k + 1 < (x :: xs).length) := by
      rw [not_lt]
      exact List.drop_eq_nil_iff.mp hrest
    rw [hrest] at hdrop
    refine iff_of_false ?_ hlast
    rw [slot_slotAxis_last hdrop]
    exact slot_two_ne _
  | cons z zs =>
    rw [hrest] at hdrop
    refine iff_of_true (slot_part hdrop) ?_
    rw [← not_le]
    intro hle
    rw [List.drop_eq_nil_iff.mpr hle] at hrest
    cases hrest

/-! ## Comparisons of digests -/

section

variable {subj f g p : Noun}

/-- Whatever the pairs, a comparison of digests that has a product rejects. -/
theorem limbPairs_product {pairs : List (Nat × Nat)} (h : Yields subj (traceEqLimbPairs pairs) p) :
    p = loob false := by
  induction pairs generalizing p with
  | nil => exact (yields_const_iff.mp h).symm
  | cons pair t ih =>
    obtain ⟨x, -, h⟩ := yields_if_iff.mp h
    cases x with
    | false => exact (yields_const_iff.mp h).symm
    | true =>
      obtain ⟨y, hy, h⟩ := yields_if_iff.mp h
      have hfalse : loob y = loob false := ih hy
      cases y with
      | false => exact (yields_const_iff.mp h).symm
      | true => cases hfalse

/-- A comparison of digests has a product exactly where the first pair of limbs exists and, where the
two are equal, the comparison of the other pairs has one. -/
theorem limbPairs_defined_iff {pa wa : Nat} {t : List (Nat × Nat)} :
    (∃ p, Yields subj (traceEqLimbPairs ((pa, wa) :: t)) p) ↔
      ∃ x y, slot pa subj = some x ∧ slot wa subj = some y ∧
        (x = y → ∃ p, Yields subj (traceEqLimbPairs t) p) := by
  constructor
  · rintro ⟨p, h⟩
    obtain ⟨b, hb, h⟩ := yields_if_iff.mp h
    obtain ⟨x, y, hx, hy, hloob⟩ := yields_eq_iff.mp hb
    refine ⟨x, y, yields_slot_iff.mp hx, yields_slot_iff.mp hy, fun hxy => ?_⟩
    have htrue : b = true := by
      rw [decide_eq_true hxy] at hloob
      cases b with
      | true => rfl
      | false => cases hloob
    rw [htrue] at h
    obtain ⟨c, hc, -⟩ := yields_if_iff.mp h
    exact ⟨_, hc⟩
  · rintro ⟨x, y, hx, hy, hrest⟩
    have heq := yields_traceEqPicks hx hy
    by_cases hxy : x = y
    · obtain ⟨q, hq⟩ := hrest hxy
      obtain rfl := limbPairs_product hq
      exact ⟨_, yields_traceAnd heq hq⟩
    · rw [decide_eq_false hxy] at heq
      exact ⟨_, yields_if_iff.mpr ⟨false, heq, yields_traceFalse subj⟩⟩

/-- Where only the last pair of limbs is out of reach, a comparison of digests has a product exactly
when an earlier pair differs. -/
theorem limbPairs_defined_of_last (reached : List (Nat × Nat)) (last : Nat × Nat)
    (hreached : ∀ pair ∈ reached, ∃ x y, slot pair.1 subj = some x ∧ slot pair.2 subj = some y)
    (hlast : slot last.2 subj = none) :
    (∃ p, Yields subj (traceEqLimbPairs (reached ++ [last])) p) ↔
      ∃ pair ∈ reached, slot pair.1 subj ≠ slot pair.2 subj := by
  induction reached with
  | nil =>
    rw [List.nil_append, limbPairs_defined_iff]
    simp [hlast]
  | cons pair t ih =>
    obtain ⟨hpair, ht⟩ := List.forall_mem_cons.mp hreached
    obtain ⟨x, y, hx, hy⟩ := hpair
    rw [List.cons_append, limbPairs_defined_iff, List.exists_mem_cons_iff, ih ht, hx, hy]
    constructor
    · rintro ⟨x', y', hx', hy', h⟩
      cases hx'
      cases hy'
      by_cases hxy : x = y
      · exact Or.inr (h hxy)
      · exact Or.inl fun h => hxy (Option.some.inj h)
    · intro h
      refine ⟨x, y, rfl, rfl, fun hxy => ?_⟩
      rcases h with h | h
      · exact absurd (congrArg some hxy) h
      · exact h

/-- Digests whose limbs are all in reach but for the last one of the second. -/
theorem limbPairs_digests_iff {page want : NounDigest} {p0 p1 p2 p3 p4 w0 w1 w2 w3 w4 : Nat}
    (h0 : slot p0 subj = some (atom page.d0)) (h1 : slot p1 subj = some (atom page.d1))
    (h2 : slot p2 subj = some (atom page.d2)) (h3 : slot p3 subj = some (atom page.d3))
    (g0 : slot w0 subj = some (atom want.d0)) (g1 : slot w1 subj = some (atom want.d1))
    (g2 : slot w2 subj = some (atom want.d2)) (g3 : slot w3 subj = some (atom want.d3))
    (g4 : slot w4 subj = none) :
    (∃ p, Yields subj
        (traceEqLimbPairs [(p0, w0), (p1, w1), (p2, w2), (p3, w3), (p4, w4)]) p) ↔
      ¬(page.d0 = want.d0 ∧ page.d1 = want.d1 ∧ page.d2 = want.d2 ∧ page.d3 = want.d3) := by
  have hlast : slot (p4, w4).2 subj = none := g4
  refine (limbPairs_defined_of_last [(p0, w0), (p1, w1), (p2, w2), (p3, w3)] (p4, w4)
    ?_ hlast).trans ?_
  · simp [h0, h1, h2, h3, g0, g1, g2, g3]
  · simp [h0, h1, h2, h3, g0, g1, g2, g3]
    tauto

end

/-! ## Named axes -/

/-- What the axes of the slots of a tuple fetch. -/
theorem map_slot_slotAxis (x : Noun) (xs : List Noun) :
    (List.range (xs.length + 1)).map (fun k => slot (slotAxis (k + 1)) (tuple x xs)) =
      (x :: xs).dropLast.map some ++ [slot 2 ((x :: xs).getLast (List.cons_ne_nil x xs))] := by
  rw [List.range_succ, List.map_append, List.map_singleton]
  congr 1
  · refine List.ext_getElem (by simp) fun k hk _ => ?_
    have hlt : k < xs.length := by simpa using hk
    have hk' : k < (x :: xs).length := Nat.lt_succ_of_lt hlt
    rw [List.getElem_map, List.getElem_map, List.getElem_range, List.getElem_dropLast]
    exact (slot_slotAxis_iff x xs ⟨k, hk'⟩).mpr (Nat.succ_lt_succ hlt)
  · have hdrop : (x :: xs).drop xs.length = [(x :: xs).getLast (List.cons_ne_nil x xs)] := by
      have hlt : xs.length < (x :: xs).length := Nat.lt_succ_self _
      have hnil : (x :: xs).drop (xs.length + 1) = [] := List.drop_eq_nil_of_le le_rfl
      rw [List.drop_eq_getElem_cons hlt, hnil, List.getLast_eq_getElem]
      rfl
    rw [slot_slotAxis_last hdrop]

section

variable (prevH : Nat) (page : NounDigest) (wantH : Nat) (want : NounDigest)

/-- The named axes of a block without a claim fetch the fields of their names, but for `w4`. -/
theorem emptyAxes_fetch :
    let ax := emptyAxes
    [ax.prevH, ax.d0, ax.d1, ax.d2, ax.d3, ax.d4, ax.wantH, ax.w0, ax.w1, ax.w2, ax.w3, ax.w4].map
        (fun axis => slot axis (emptyTransitionSubject prevH page wantH want)) =
      [prevH, page.d0, page.d1, page.d2, page.d3, page.d4, wantH, want.d0, want.d1, want.d2,
        want.d3].map (fun x => some (atom x)) ++ [none] :=
  (map_slot_slotAxis (atom prevH) (page.limbs ++ atom wantH :: want.limbs)).trans
    (congrArg (_ ++ [·]) (slot_two_atom want.d4))

theorem fullAxes_fetch (proofLen accTag candTag : Nat) (block : Noun) :
    let ax := fullAxes
    [ax.proofLen, ax.prevH, ax.d0, ax.d1, ax.d2, ax.d3, ax.d4, ax.accTag, ax.candTag, ax.block,
        ax.wantH, ax.w0, ax.w1, ax.w2, ax.w3, ax.w4].map
        (fun axis => slot axis
          (fullTransitionSubject proofLen prevH page accTag candTag block wantH want)) =
      [atom proofLen, atom prevH, atom page.d0, atom page.d1, atom page.d2, atom page.d3,
        atom page.d4, atom accTag, atom candTag, block, atom wantH, atom want.d0, atom want.d1,
        atom want.d2, atom want.d3].map some ++ [none] :=
  (map_slot_slotAxis (atom proofLen) (atom prevH :: page.limbs ++
    atom accTag :: atom candTag :: block :: atom wantH :: want.limbs)).trans
      (congrArg (_ ++ [·]) (slot_two_atom want.d4))

/-- The digests are compared up to `w4`, so the comparison has a product exactly when one of the
first four limbs differs. -/
theorem digestsEmpty_defined_iff :
    (∃ p, Yields (emptyTransitionSubject prevH page wantH want) traceEqBasedDigestsEmpty p) ↔
      ¬(page.d0 = want.d0 ∧ page.d1 = want.d1 ∧ page.d2 = want.d2 ∧ page.d3 = want.d3) := by
  have hfetch := emptyAxes_fetch prevH page wantH want
  simp only [List.map_cons, List.map_nil, List.cons_append, List.nil_append, List.cons.injEq]
    at hfetch
  obtain ⟨-, h0, h1, h2, h3, -, -, g0, g1, g2, g3, g4, -⟩ := hfetch
  exact limbPairs_digests_iff h0 h1 h2 h3 g0 g1 g2 g3 g4

theorem digestsFull_defined_iff (proofLen accTag candTag : Nat) (block : Noun) :
    (∃ p, Yields (fullTransitionSubject proofLen prevH page accTag candTag block wantH want)
        traceEqBasedDigestsFull p) ↔
      ¬(page.d0 = want.d0 ∧ page.d1 = want.d1 ∧ page.d2 = want.d2 ∧ page.d3 = want.d3) := by
  have hfetch := fullAxes_fetch prevH page wantH want proofLen accTag candTag block
  simp only [List.map_cons, List.map_nil, List.cons_append, List.nil_append, List.cons.injEq]
    at hfetch
  obtain ⟨-, -, h0, h1, h2, h3, -, -, -, -, -, g0, g1, g2, g3, g4, -⟩ := hfetch
  exact limbPairs_digests_iff h0 h1 h2 h3 g0 g1 g2 g3 g4

end

/-- `+slot-axis` addresses a slot exactly when it is not the last one of its tuple. So every named
axis of both subjects fetches its field but `w4`, and the comparisons of digests have a product
exactly when one of the first four limbs differs. -/
theorem slotAxis_addresses_iff (x : Noun) (xs : List Noun) (k : Fin (x :: xs).length)
    (proofLen prevH : Nat) (page : NounDigest) (accTag candTag : Nat) (block : Noun) (wantH : Nat)
    (want : NounDigest) :
    let empty := emptyTransitionSubject prevH page wantH want
    let full := fullTransitionSubject proofLen prevH page accTag candTag block wantH want
    let ax := emptyAxes
    let fx := fullAxes
    let agree := page.d0 = want.d0 ∧ page.d1 = want.d1 ∧ page.d2 = want.d2 ∧ page.d3 = want.d3
    (slot (slotAxis (k + 1)) (tuple x xs) = some ((x :: xs).get k) ↔ k + 1 < (x :: xs).length) ∧
    [ax.prevH, ax.d0, ax.d1, ax.d2, ax.d3, ax.d4, ax.wantH, ax.w0, ax.w1, ax.w2, ax.w3,
        ax.w4].map (fun axis => slot axis empty) =
      [prevH, page.d0, page.d1, page.d2, page.d3, page.d4, wantH, want.d0, want.d1, want.d2,
        want.d3].map (fun x => some (atom x)) ++ [none] ∧
    [fx.proofLen, fx.prevH, fx.d0, fx.d1, fx.d2, fx.d3, fx.d4, fx.accTag, fx.candTag, fx.block,
        fx.wantH, fx.w0, fx.w1, fx.w2, fx.w3, fx.w4].map (fun axis => slot axis full) =
      [atom proofLen, atom prevH, atom page.d0, atom page.d1, atom page.d2, atom page.d3,
        atom page.d4, atom accTag, atom candTag, block, atom wantH, atom want.d0, atom want.d1,
        atom want.d2, atom want.d3].map some ++ [none] ∧
    ((∃ p, Yields empty traceEqBasedDigestsEmpty p) ↔ ¬agree) ∧
    ((∃ p, Yields full traceEqBasedDigestsFull p) ↔ ¬agree) :=
  ⟨slot_slotAxis_iff x xs k, emptyAxes_fetch prevH page wantH want,
    fullAxes_fetch prevH page wantH want proofLen accTag candTag block,
    digestsEmpty_defined_iff prevH page wantH want,
    digestsFull_defined_iff prevH page wantH want proofLen accTag candTag block⟩

/-- The last slot of a pair, and `w4` of a block without a claim. -/
theorem slotAxis_misses_last :
    slot (slotAxis 2) (tuple (atom 5) [atom 7]) ≠ some (atom 7) ∧
      slot emptyAxes.w4 (emptyTransitionSubject 0 ⟨1, 2, 3, 4, 5⟩ 1 ⟨6, 7, 8, 9, 10⟩) ≠
        some (atom 10) := by
  decide +kernel

end NnsVerified.Kernel
