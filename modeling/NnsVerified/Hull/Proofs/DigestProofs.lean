import NnsVerified.Hull.Chain

/-!
# `chain.rs`: digests

The limbs of a 40-byte buffer determine it, so the hull compares two digests of at most 40 bytes as
the atoms that they serialize.
-/

namespace NnsVerified.Hull

open NnsVerified.Library

@[simp] theorem length_limbBytes (l : Vector UInt64 5) : (limbBytes l).length = 40 := by
  simp [limbBytes]

/-- Five chunks of eight bytes are the whole buffer. -/
theorem limbBytes_limbs {bs : List UInt8} (h : bs.length = 40) : limbBytes (limbs bs) = bs := by
  have hchunk : ∀ i < 5, toLeBytes (fromLeBytes ((bs.drop (i * 8)).take 8))
      = (bs.drop (i * 8)).take 8 := by
    intro i hi
    refine toLeBytes_fromLeBytes ?_
    rw [List.length_take, List.length_drop]
    omega
  have hjoin : ∀ n : Nat, (bs.drop n).take 8 ++ bs.drop (n + 8) = bs.drop n := by
    intro n
    rw [← List.drop_drop, List.take_append_drop]
  have hend : (bs.drop 32).take 8 = bs.drop 32 := by
    refine List.take_of_length_le ?_
    rw [List.length_drop]
    omega
  calc limbBytes (limbs bs)
      = (bs.drop 0).take 8 ++ ((bs.drop 8).take 8 ++ ((bs.drop 16).take 8 ++
          ((bs.drop 24).take 8 ++ (bs.drop 32).take 8))) := by
        rw [← hchunk 0 (by omega), ← hchunk 1 (by omega), ← hchunk 2 (by omega),
          ← hchunk 3 (by omega), ← hchunk 4 (by omega), ← List.append_nil (toLeBytes _)]
        rfl
    _ = bs := by
        rw [hend, hjoin 24, hjoin 16, hjoin 8, hjoin 0, List.drop_zero]

/-- Encodings of one width are joined without loss. -/
theorem flatMap_toLeBytes_inj {xs ys : List UInt64} (hlen : xs.length = ys.length)
    (h : xs.flatMap toLeBytes = ys.flatMap toLeBytes) : xs = ys := by
  induction xs generalizing ys with
  | nil => exact (List.length_eq_zero_iff.mp hlen.symm).symm
  | cons x xs ih =>
    cases ys with
    | nil => simp at hlen
    | cons y ys =>
      rw [List.flatMap_cons, List.flatMap_cons] at h
      obtain ⟨hhead, htail⟩ := List.append_inj h (by simp)
      have hxy : x = y := by rw [← fromLeBytes_toLeBytes x, hhead, fromLeBytes_toLeBytes]
      rw [hxy, ih (by simpa using hlen) htail]

theorem limbs_limbBytes (l : Vector UInt64 5) : limbs (limbBytes l) = l := by
  refine Vector.toList_inj.mp (flatMap_toLeBytes_inj (by simp) ?_)
  exact limbBytes_limbs (length_limbBytes l)

theorem limbs_inj {as bs : List UInt8} (ha : as.length = 40) (hb : bs.length = 40) :
    limbs as = limbs bs ↔ as = bs := by
  constructor
  · intro h
    rw [← limbBytes_limbs ha, h, limbBytes_limbs hb]
  · rintro rfl
    rfl

theorem tip5AtomSemanticEq_iff_padTo (a b : List UInt8) :
    tip5AtomSemanticEq a b = true ↔ padTo 40 a = padTo 40 b := by
  unfold tip5AtomSemanticEq
  rw [decide_eq_true_eq, limbs_inj (length_padTo 40 a) (length_padTo 40 b)]

/-- The comparison of a digest of at most 40 bytes with one whose value fits in 40 bytes, in
whatever width, is the comparison of the atoms. -/
theorem tip5AtomSemanticEq_iff {a b : List UInt8} (ha : a.length ≤ 40)
    (hb : leValue b < 256 ^ 40) : tip5AtomSemanticEq a b = true ↔ leValue a = leValue b := by
  have hvalue : leValue (leBytes 40 (leValue b)) = leValue b := by
    rw [leValue_leBytes, Nat.mod_eq_of_lt hb]
  have hlen : (leBytes 40 (leValue b)).length ≤ 40 := le_of_eq (length_leBytes 40 _)
  rw [tip5AtomSemanticEq_iff_padTo, padTo_eq_of_value hlen hvalue.symm, padTo_eq_iff ha hlen,
    hvalue]

theorem scanCursorIsGenesisBoot_iff {height : UInt64} {digest : List UInt8}
    (hd : leValue digest < 256 ^ 40) :
    scanCursorIsGenesisBoot height digest = true ↔ height.toNat = 0 ∧ leValue digest = 0 := by
  have hzero : leValue (List.replicate 40 0) = 0 := leValue_append_zeros [] 40
  have hsymm : tip5AtomSemanticEq digest (List.replicate 40 0)
      = tip5AtomSemanticEq (List.replicate 40 0) digest := by
    simp [tip5AtomSemanticEq, eq_comm]
  unfold scanCursorIsGenesisBoot
  rw [Bool.and_eq_true, decide_eq_true_eq, hsymm, tip5AtomSemanticEq_iff (by simp) hd, hzero,
    ← UInt64.toNat_inj]
  constructor
  · rintro ⟨hh, hdig⟩
    exact ⟨hh, hdig.symm⟩
  · rintro ⟨hh, hdig⟩
    exact ⟨hh, hdig.symm⟩

end NnsVerified.Hull
