import NnsVerified.Hull.Proofs.DigestProofs
import NnsVerified.Kernel.Tracer

/-!
# Digests on both sides

The hull writes a digest as forty bytes and the kernel reads their atom as five limbs again. Below
forty bytes the kernel pads the atom by concatenating its bytes, which leaves out every zero among
them: the limbs come out right exactly where the atom fills forty bytes or has no zero byte below
its highest.
-/

namespace NnsVerified.Hull

open NnsVerified.Hoon NnsVerified.Library NnsVerified.Kernel

/-! ## The hull -/

/-- The message of five belts. -/
def hashOfLimbs (l : Vector UInt64 5) : PbHash :=
  ⟨some ⟨l.get 0⟩, some ⟨l.get 1⟩, some ⟨l.get 2⟩, some ⟨l.get 3⟩, some ⟨l.get 4⟩⟩

theorem hashToAtomBytes_hashOfLimbs (l : Vector UInt64 5) :
    hashToAtomBytes (hashOfLimbs l) = limbBytes l := by
  have hlist : l.toList = [l[0], l[1], l[2], l[3], l[4]] := by
    refine List.ext_getElem (by simp) fun i hi _ => ?_
    rcases i with _ | _ | _ | _ | _ | i
    · rfl
    · rfl
    · rfl
    · rfl
    · rfl
    · simp at hi
      omega
  rw [limbBytes, hlist]
  rfl

theorem atomBytesToHash_of_length {bs : List UInt8} (h : bs.length = 40) :
    atomBytesToHash bs = some (hashOfLimbs (limbs bs)) := by
  rw [atomBytesToHash, if_neg (not_not.mpr h)]
  rfl

theorem atomBytesToHash_hashToAtomBytes (l : Vector UInt64 5) :
    atomBytesToHash (hashToAtomBytes (hashOfLimbs l)) = some (hashOfLimbs l) := by
  rw [hashToAtomBytes_hashOfLimbs, atomBytesToHash_of_length (length_limbBytes l), limbs_limbBytes]

/-! ## The kernel -/

/-- The digest of five belts. -/
def digestOfLimbs (l : Vector UInt64 5) : NounDigest :=
  ⟨(l.get 0).toNat, (l.get 1).toNat, (l.get 2).toNat, (l.get 3).toNat, (l.get 4).toNat⟩

theorem digestOfLimbs_injective : Function.Injective digestOfLimbs := by
  intro l m h
  simp only [digestOfLimbs, NounDigest.mk.injEq, UInt64.toNat_inj] at h
  obtain ⟨h0, h1, h2, h3, h4⟩ := h
  refine Vector.ext fun i hi => ?_
  rcases i with _ | _ | _ | _ | _ | i
  · exact h0
  · exact h1
  · exact h2
  · exact h3
  · exact h4
  · omega

/-- Eight bytes from a position on, as a number. -/
theorem leValue_take_drop (bs : List UInt8) (m k : Nat) :
    leValue ((bs.drop m).take k) = leValue bs / 256 ^ m % 256 ^ k := by
  have hlt : ∀ d ∈ bs.map UInt8.toNat, d < 256 := fun _ => toNat_lt_of_mem_map
  have hdrop : ∀ d ∈ (bs.map UInt8.toNat).drop m, d < 256 := fun d hd =>
    hlt d (List.mem_of_mem_drop hd)
  rw [leValue, List.map_take, List.map_drop,
    ← Nat.ofDigits_mod_pow_eq_ofDigits_take k (by norm_num) _ hdrop,
    ← Nat.ofDigits_div_pow_eq_ofDigits_drop m (by norm_num) _ hlt, leValue]

theorem toNat_limb (bs : List UInt8) (i : Nat) :
    (fromLeBytes ((bs.drop (i * 8)).take 8)).toNat = leValue bs / 256 ^ (i * 8) % 256 ^ 8 := by
  rw [toNat_fromLeBytes (List.length_take_le _ _), leValue_take_drop]

/-- The limbs that the kernel reads are those of the padded atom. -/
theorem fromHullAtom_eq {d : Nat} (h : padDigestAtom40 d < 256 ^ 40) :
    fromHullAtom d = digestOfLimbs (limbs (leBytes 40 (padDigestAtom40 d))) := by
  have hvalue : leValue (leBytes 40 (padDigestAtom40 d)) = padDigestAtom40 d := by
    rw [leValue_leBytes, Nat.mod_eq_of_lt h]
  have hlimb : ∀ i, cut 3 (i * 8) 8 (padDigestAtom40 d)
      = (fromLeBytes (((leBytes 40 (padDigestAtom40 d)).drop (i * 8)).take 8)).toNat := by
    intro i
    rw [toNat_limb, hvalue]
    rfl
  simp only [fromHullAtom, digestOfLimbs, NounDigest.mk.injEq]
  exact ⟨hlimb 0, hlimb 1, hlimb 2, hlimb 3, hlimb 4⟩

/-- The bytes of an atom that are not zero, as an atom. -/
def squeeze (a : Nat) : Nat := Nat.ofDigits 256 ((rip 3 a).filter fun d => d ≠ 0)

theorem padDigestAtom40_eq (d : Nat) :
    padDigestAtom40 d = if met 3 d ≥ 40 then d else squeeze d := by
  unfold padDigestAtom40 squeeze
  split
  · rfl
  · rw [rap_three]
    · rw [List.filter_append, List.filter_replicate_of_neg (by simp), List.append_nil]
    · intro x hx
      rcases List.mem_append.mp hx with hx | hx
      · exact rip_three_lt hx
      · rw [List.eq_of_mem_replicate hx]
        norm_num

theorem rip_squeeze (a : Nat) : rip 3 (squeeze a) = (rip 3 a).filter fun d => d ≠ 0 := by
  refine Nat.digits_ofDigits 256 (by norm_num) _ (fun d hd => ?_) fun h => ?_
  · exact rip_three_lt (List.mem_of_mem_filter hd)
  · simpa using (List.mem_filter.mp (List.getLast_mem h)).2

/-- Nothing is left out exactly where no byte is zero. -/
theorem squeeze_eq_self_iff {a : Nat} : squeeze a = a ↔ 0 ∉ rip 3 a := by
  constructor
  · intro h hmem
    have hrip := rip_squeeze a
    rw [h] at hrip
    rw [hrip] at hmem
    simpa using (List.mem_filter.mp hmem).2
  · intro h
    have hfilter : ((rip 3 a).filter fun d => d ≠ 0) = rip 3 a := by
      refine List.filter_eq_self.mpr fun d hd => ?_
      rw [decide_eq_true_eq]
      rintro rfl
      exact h hd
    rw [squeeze, hfilter, rip_three, Nat.ofDigits_digits]

theorem squeeze_eq_squeeze_iff {a b : Nat} : squeeze a = squeeze b ↔
    ((rip 3 a).filter fun d => d ≠ 0) = (rip 3 b).filter fun d => d ≠ 0 := by
  rw [← rip_squeeze, ← rip_squeeze]
  exact (Nat.digits_inj_iff ..).symm

theorem lt_of_met_lt {a k : Nat} (h : met 3 a < k) : a < 256 ^ (k - 1) := by
  by_contra hle
  have hlt := (Nat.lt_digits_length_iff (b := 256) (by norm_num) a (k := k - 1)).mpr (not_lt.mp hle)
  have hmet : met 3 a = (Nat.digits 256 a).length := rfl
  omega

/-- Leaving bytes out does not widen an atom. -/
theorem squeeze_lt_of_met_lt {a : Nat} (h : met 3 a < 40) : squeeze a < 256 ^ 39 := by
  refine lt_of_met_lt (lt_of_le_of_lt ?_ h)
  rw [met, rip_squeeze]
  exact List.length_filter_le _ _

theorem padDigestAtom40_lt {a : Nat} (h : a < 256 ^ 40) : padDigestAtom40 a < 256 ^ 40 := by
  rw [padDigestAtom40_eq]
  split
  · exact h
  · rename_i hmet
    exact (squeeze_lt_of_met_lt (not_le.mp hmet)).trans (by norm_num)

/-- Padding keeps an atom exactly where it is wide enough, or has no zero byte below its highest. -/
theorem padDigestAtom40_eq_self_iff {a : Nat} :
    padDigestAtom40 a = a ↔ 40 ≤ met 3 a ∨ 0 ∉ rip 3 a := by
  rw [padDigestAtom40_eq]
  by_cases hmet : 40 ≤ met 3 a
  · simp [hmet]
  · rw [if_neg hmet, squeeze_eq_self_iff]
    simp [hmet]

/-- Padding confuses two atoms exactly where both are short and have the same bytes but zeros. -/
theorem padDigestAtom40_eq_iff {a b : Nat} : padDigestAtom40 a = padDigestAtom40 b ↔
    a = b ∨ met 3 a < 40 ∧ met 3 b < 40 ∧
      ((rip 3 a).filter fun d => d ≠ 0) = (rip 3 b).filter fun d => d ≠ 0 := by
  have hwide : ∀ {x y : Nat}, 40 ≤ met 3 x → met 3 y < 40 → x ≠ squeeze y := by
    intro x y hx hy he
    have hlow := (Nat.lt_digits_length_iff (b := 256) (by norm_num) x (k := 39)).mp hx
    have hhigh := squeeze_lt_of_met_lt hy
    omega
  have hsame : ∀ {x y : Nat}, 40 ≤ met 3 x → met 3 y < 40 → x ≠ y := by
    rintro x y hx hy rfl
    omega
  rw [padDigestAtom40_eq, padDigestAtom40_eq]
  by_cases ha : 40 ≤ met 3 a
  · by_cases hb : 40 ≤ met 3 b
    · simp [ha, hb, Nat.not_lt.mpr ha]
    · have hb' := not_le.mp hb
      simp [ha, hb, Nat.not_lt.mpr ha, hwide ha hb', hsame ha hb']
  · have ha' := not_le.mp ha
    by_cases hb : 40 ≤ met 3 b
    · simp [ha, hb, Nat.not_lt.mpr hb, (hwide hb ha').symm, (hsame hb ha').symm]
    · have hb' := not_le.mp hb
      rw [if_neg ha, if_neg hb, squeeze_eq_squeeze_iff]
      constructor
      · intro h
        exact Or.inr ⟨ha', hb', h⟩
      · rintro (rfl | ⟨-, -, h⟩)
        · rfl
        · exact h

theorem leBytes_inj {a b : Nat} (ha : a < 256 ^ 40) (hb : b < 256 ^ 40) :
    leBytes 40 a = leBytes 40 b ↔ a = b := by
  constructor
  · intro h
    have hvalue := congrArg leValue h
    rwa [leValue_leBytes, leValue_leBytes, Nat.mod_eq_of_lt ha, Nat.mod_eq_of_lt hb] at hvalue
  · rintro rfl
    rfl

theorem fromHullAtom_eq_iff {a b : Nat} (ha : a < 256 ^ 40) (hb : b < 256 ^ 40) :
    fromHullAtom a = fromHullAtom b ↔ padDigestAtom40 a = padDigestAtom40 b := by
  have hpa := padDigestAtom40_lt ha
  have hpb := padDigestAtom40_lt hb
  rw [fromHullAtom_eq hpa, fromHullAtom_eq hpb, digestOfLimbs_injective.eq_iff,
    limbs_inj (length_leBytes 40 _) (length_leBytes 40 _), leBytes_inj hpa hpb]

/-- The kernel reads the limbs that the hull wrote exactly where padding keeps their atom. -/
theorem fromHullAtom_limbBytes_iff (l : Vector UInt64 5) :
    fromHullAtom (leValue (limbBytes l)) = digestOfLimbs l ↔
      padDigestAtom40 (leValue (limbBytes l)) = leValue (limbBytes l) := by
  have hlt : leValue (limbBytes l) < 256 ^ 40 := leValue_lt (le_of_eq (length_limbBytes l))
  have hpad := padDigestAtom40_lt hlt
  have hl : l = limbs (leBytes 40 (leValue (limbBytes l))) := by
    rw [leBytes_leValue (length_limbBytes l), limbs_limbBytes]
  rw [fromHullAtom_eq hpad]
  conv_lhs => rw [hl, digestOfLimbs_injective.eq_iff, limbs_inj (length_leBytes 40 _)
    (length_leBytes 40 _), ← hl, leBytes_inj hpad hlt]

/-! ## Both sides -/

/-- The encodings of the hull are inverse to each other, every atom below `2 ^ 320` is one of
theirs, and the hull compares digests as atoms. The kernel reads five limbs back from their atom
exactly where the atom has forty bytes or no zero byte below its highest, and its tuples agree with
the atoms except on two short atoms that differ in zero bytes alone. -/
theorem digest_encodings_agree_iff (l : Vector UInt64 5) (as bs : List UInt8)
    (has : as.length ≤ 40) (hbs : bs.length ≤ 40) :
    ((hashToAtomBytes (hashOfLimbs l)).length = 40 ∧
        atomBytesToHash (hashToAtomBytes (hashOfLimbs l)) = some (hashOfLimbs l)) ∧
      (as.length = 40 → (atomBytesToHash as).map hashToAtomBytes = some as) ∧
      (∀ a < 2 ^ 320, ∃ m, leValue (hashToAtomBytes (hashOfLimbs m)) = a) ∧
      (fromHullAtom (leValue (hashToAtomBytes (hashOfLimbs l))) = digestOfLimbs l ↔
        40 ≤ met 3 (leValue (hashToAtomBytes (hashOfLimbs l))) ∨
          0 ∉ rip 3 (leValue (hashToAtomBytes (hashOfLimbs l)))) ∧
      (tip5AtomSemanticEq as bs = true ↔ leValue as = leValue bs) ∧
      ((leValue as = leValue bs ↔ fromHullAtom (leValue as) = fromHullAtom (leValue bs)) ↔
        leValue as = leValue bs ∨ ¬(met 3 (leValue as) < 40 ∧ met 3 (leValue bs) < 40 ∧
          ((rip 3 (leValue as)).filter fun d => d ≠ 0)
            = (rip 3 (leValue bs)).filter fun d => d ≠ 0)) := by
  refine ⟨⟨?_, atomBytesToHash_hashToAtomBytes l⟩, fun h => ?_, fun a ha => ?_, ?_, ?_, ?_⟩
  · rw [hashToAtomBytes_hashOfLimbs, length_limbBytes]
  · rw [atomBytesToHash_of_length h, Option.map_some, hashToAtomBytes_hashOfLimbs, limbBytes_limbs h]
  · have hbase : (256 : Nat) ^ 40 = 2 ^ 320 := by
      rw [show (256 : Nat) = 2 ^ 8 from rfl, ← pow_mul]
    refine ⟨limbs (leBytes 40 a), ?_⟩
    rw [hashToAtomBytes_hashOfLimbs, limbBytes_limbs (length_leBytes 40 a), leValue_leBytes, hbase,
      Nat.mod_eq_of_lt ha]
  · rw [hashToAtomBytes_hashOfLimbs, fromHullAtom_limbBytes_iff, padDigestAtom40_eq_self_iff]
  · exact tip5AtomSemanticEq_iff has (leValue_lt hbs)
  · rw [fromHullAtom_eq_iff (leValue_lt has) (leValue_lt hbs), padDigestAtom40_eq_iff]
    tauto

/-- Limbs with zero bytes inside whose atom has forty bytes. -/
def wideLimbs : Vector UInt64 5 := #v[1, 0, 1099511627776, 0, 9223372036854775813]

/-- An atom with a zero byte inside, in forty bytes. -/
def paddedBytes : List UInt8 := [7, 0, 9] ++ List.replicate 37 0

theorem digest_encodings_agree_wide :
    (hashToAtomBytes (hashOfLimbs wideLimbs)).length = 40 ∧
      atomBytesToHash (hashToAtomBytes (hashOfLimbs wideLimbs)) = some (hashOfLimbs wideLimbs) ∧
      (atomBytesToHash paddedBytes).map hashToAtomBytes = some paddedBytes ∧
      fromHullAtom (leValue (hashToAtomBytes (hashOfLimbs wideLimbs))) = digestOfLimbs wideLimbs ∧
      -- one atom in strings of two lengths
      tip5AtomSemanticEq paddedBytes [7, 0, 9] = true ∧
      fromHullAtom (leValue paddedBytes) = fromHullAtom (leValue [7, 0, 9]) ∧
      -- two atoms
      tip5AtomSemanticEq paddedBytes [9, 0, 7, 0] = false ∧
      fromHullAtom (leValue paddedBytes) ≠ fromHullAtom (leValue [9, 0, 7, 0]) := by
  obtain ⟨⟨hlen, hback⟩, hforth, -, hkernel, hsame, htuples⟩ :=
    digest_encodings_agree_iff wideLimbs paddedBytes [7, 0, 9] (by decide) (by decide)
  obtain ⟨-, -, -, -, hdiffer, htuples'⟩ :=
    digest_encodings_agree_iff wideLimbs paddedBytes [9, 0, 7, 0] (by decide) (by decide)
  have hvalue : leValue paddedBytes = leValue [7, 0, 9] := by decide +kernel
  have hvalue' : leValue paddedBytes ≠ leValue [9, 0, 7, 0] := by decide +kernel
  have hbytes : ((rip 3 (leValue paddedBytes)).filter fun d => d ≠ 0)
      ≠ (rip 3 (leValue [9, 0, 7, 0])).filter fun d => d ≠ 0 := by decide +kernel
  refine ⟨hlen, hback, hforth (by decide), hkernel.mpr (Or.inl (by decide +kernel)),
    hsame.mpr hvalue, (htuples.mpr (Or.inl hvalue)).mp hvalue, ?_, fun h => hvalue' ?_⟩
  · exact Bool.eq_false_iff.mpr fun h => hvalue' (hdiffer.mp h)
  · exact (htuples'.mpr (Or.inr fun hshort => hbytes hshort.2.2)).mpr h

/-- The limbs `(1, 1, 0, 0, 0)` come out as `(257, 0, 0, 0, 0)`, which is also what the atom `257`
comes out as. -/
theorem digest_encodings_confused :
    fromHullAtom (leValue (hashToAtomBytes (hashOfLimbs #v[1, 1, 0, 0, 0]))) = ⟨257, 0, 0, 0, 0⟩ ∧
      digestOfLimbs #v[1, 1, 0, 0, 0] = ⟨1, 1, 0, 0, 0⟩ ∧
      tip5AtomSemanticEq [1, 0, 0, 0, 0, 0, 0, 0, 1] [1, 1] = false ∧
      fromHullAtom (leValue [1, 0, 0, 0, 0, 0, 0, 0, 1]) = fromHullAtom (leValue [1, 1]) := by
  decide

end NnsVerified.Hull
