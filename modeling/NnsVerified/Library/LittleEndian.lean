import Mathlib.Data.List.DropRight
import Mathlib.Data.Nat.Digits.Lemmas

/-!
# Little-endian byte strings

The value of a little-endian byte string, and zero padding to a fixed width. Two byte strings have
the same value exactly when they agree after padding, and a byte string without trailing zeros is
recovered from its value as its list of base-256 digits.
-/

namespace NnsVerified.Library

/-! ## Values of byte strings -/

/-- The number whose little-endian bytes are `bs`. -/
def leValue (bs : List UInt8) : Nat := Nat.ofDigits 256 (bs.map UInt8.toNat)

@[simp] theorem leValue_nil : leValue [] = 0 := rfl

theorem toNat_lt_of_mem_map {bs : List UInt8} {d : Nat} (h : d ∈ bs.map UInt8.toNat) : d < 256 := by
  obtain ⟨b, -, rfl⟩ := List.mem_map.mp h
  exact b.toNat_lt

theorem map_toNat_injective : Function.Injective (List.map UInt8.toNat) :=
  List.map_injective_iff.mpr fun _ _ h => UInt8.toNat_inj.mp h

theorem leValue_append (as bs : List UInt8) :
    leValue (as ++ bs) = leValue as + 256 ^ as.length * leValue bs := by
  simp [leValue, Nat.ofDigits_append]

theorem leValue_append_zeros (bs : List UInt8) (k : Nat) :
    leValue (bs ++ List.replicate k 0) = leValue bs := by
  simp [leValue, Nat.ofDigits_append_replicate_zero]

/-- Byte strings of one length are determined by their value. -/
theorem leValue_inj_of_length {as bs : List UInt8} (hlen : as.length = bs.length) :
    leValue as = leValue bs ↔ as = bs := by
  constructor
  · intro h
    refine map_toNat_injective (Nat.ofDigits_inj_of_len_eq (b := 256) (by norm_num)
      (by simpa using hlen) (fun _ => toNat_lt_of_mem_map) (fun _ => toNat_lt_of_mem_map) h)
  · rintro rfl
    rfl

/-- The value of a byte string of length at most `n` is below `256 ^ n`. -/
theorem leValue_lt {bs : List UInt8} {n : Nat} (h : bs.length ≤ n) : leValue bs < 256 ^ n := by
  have hlt : leValue bs < 256 ^ (bs.map UInt8.toNat).length :=
    Nat.ofDigits_lt_base_pow_length (by norm_num) (fun _ => toNat_lt_of_mem_map)
  rw [List.length_map] at hlt
  exact lt_of_lt_of_le hlt (Nat.pow_le_pow_right (by norm_num) h)

/-- A byte string without trailing zeros is the list of base-256 digits of its value. -/
theorem digits_leValue {bs : List UInt8} (hlast : ∀ h : bs ≠ [], bs.getLast h ≠ 0) :
    Nat.digits 256 (leValue bs) = bs.map UInt8.toNat := by
  refine Nat.digits_ofDigits 256 (by norm_num) _ (fun _ => toNat_lt_of_mem_map) fun h => ?_
  have hne : bs ≠ [] := fun e => h (by simp [e])
  rw [List.getLast_map]
  intro h0
  exact hlast hne (UInt8.toNat_inj.mp (by simpa using h0))

/-! ## Bytes of a number at a fixed width -/

/-- The `k` low bytes of a number, little-endian. -/
def leBytes : Nat → Nat → List UInt8
  | 0, _ => []
  | k + 1, n => UInt8.ofNat (n % 256) :: leBytes k (n / 256)

@[simp] theorem length_leBytes (k n : Nat) : (leBytes k n).length = k := by
  induction k generalizing n with
  | zero => rfl
  | succ k ih => rw [leBytes, List.length_cons, ih]

theorem leValue_leBytes (k n : Nat) : leValue (leBytes k n) = n % 256 ^ k := by
  induction k generalizing n with
  | zero => simp [leBytes, Nat.mod_one]
  | succ k ih =>
    have hbyte : (UInt8.ofNat (n % 256)).toNat = n % 256 := by
      simp [UInt8.toNat_ofNat']
    have htail := ih (n / 256)
    unfold leValue at htail ⊢
    rw [leBytes, List.map_cons, Nat.ofDigits_cons, htail, hbyte, Nat.pow_succ', Nat.mod_mul]

/-- A byte string is the bytes of its value at its own width. -/
theorem leBytes_leValue {bs : List UInt8} {k : Nat} (h : bs.length = k) :
    leBytes k (leValue bs) = bs := by
  refine (leValue_inj_of_length (by simp [h])).mp ?_
  rw [leValue_leBytes, Nat.mod_eq_of_lt (leValue_lt (le_of_eq h))]

/-! ## Words of four bytes -/

/-- The numbers whose bytes, four at a time, are `bs`; the last may have fewer. -/
def leWords : List UInt8 → List Nat
  | [] => []
  | [a] => [leValue [a]]
  | [a, b] => [leValue [a, b]]
  | [a, b, c] => [leValue [a, b, c]]
  | a :: b :: c :: d :: bs => leValue [a, b, c, d] :: leWords bs

theorem length_leWords (bs : List UInt8) : (leWords bs).length = (bs.length + 3) / 4 := by
  induction bs using leWords.induct with
  | case1 | case2 | case3 | case4 => simp [leWords]
  | case5 a b c d bs ih =>
    rw [leWords, List.length_cons, ih]
    simp
    omega

theorem leWords_lt {bs : List UInt8} {w : Nat} (h : w ∈ leWords bs) : w < 2 ^ 32 := by
  have hbound : ∀ ws : List UInt8, ws.length ≤ 4 → leValue ws < 2 ^ 32 := fun ws hws => by
    have hlt := leValue_lt hws
    norm_num at hlt ⊢
    exact hlt
  induction bs using leWords.induct with
  | case1 => simp [leWords] at h
  | case2 | case3 | case4 =>
    rw [leWords] at h
    obtain rfl := List.mem_singleton.mp h
    exact hbound _ (by simp)
  | case5 a b c d bs ih =>
    rw [leWords] at h
    rcases List.mem_cons.mp h with rfl | h
    · exact hbound _ (by simp)
    · exact ih h

/-- The bytes of the words are the bytes that they were made of, with zeros at the end. -/
theorem flatMap_leWords (bs : List UInt8) :
    ∃ k, (leWords bs).flatMap (leBytes 4) = bs ++ List.replicate k 0 := by
  have hword : ∀ ws : List UInt8, ws.length ≤ 4 →
      leBytes 4 (leValue ws) = ws ++ List.replicate (4 - ws.length) 0 := fun ws hws => by
    rw [← leValue_append_zeros ws (4 - ws.length)]
    exact leBytes_leValue (by simp; omega)
  induction bs using leWords.induct with
  | case1 => exact ⟨0, rfl⟩
  | case2 | case3 | case4 =>
    rw [leWords, List.flatMap_singleton]
    exact ⟨_, hword _ (by simp)⟩
  | case5 a b c d bs ih =>
    obtain ⟨k, ih⟩ := ih
    refine ⟨k, ?_⟩
    rw [leWords, List.flatMap_cons, ih, hword _ (by simp)]
    rfl

/-! ## Padding to a fixed width -/

/-- Copy at most `n` bytes into a zeroed buffer of `n` bytes. -/
def padTo (n : Nat) (bs : List UInt8) : List UInt8 :=
  bs.take n ++ List.replicate (n - bs.length) 0

@[simp] theorem length_padTo (n : Nat) (bs : List UInt8) : (padTo n bs).length = n := by
  simp [padTo]
  omega

/-- Padding a byte string that fits keeps its value. -/
theorem leValue_padTo {bs : List UInt8} {n : Nat} (h : bs.length ≤ n) :
    leValue (padTo n bs) = leValue bs := by
  rw [padTo, List.take_of_length_le h, leValue_append_zeros]

/-- The digits of a value are its bytes without the zeros at the end. -/
theorem digits_leValue_rdropWhile (bs : List UInt8) :
    Nat.digits 256 (leValue bs) = (bs.rdropWhile fun b => b = 0).map UInt8.toNat := by
  have hzeros : bs.rtakeWhile (fun b => b = 0)
      = List.replicate (bs.rtakeWhile fun b => b = 0).length 0 :=
    List.eq_replicate_of_mem fun b hb => by simpa using List.mem_rtakeWhile_imp hb
  have hvalue : leValue bs = leValue (bs.rdropWhile fun b => b = 0) := by
    conv_lhs => rw [← List.rdropWhile_append_rtakeWhile (p := fun b => b = 0) (l := bs), hzeros]
    exact leValue_append_zeros _ _
  rw [hvalue]
  exact digits_leValue fun h => by simpa using List.rdropWhile_last_not (fun b => b = 0) bs h

/-- Two byte strings that fit agree after padding exactly when they have the same value. -/
theorem padTo_eq_iff {as bs : List UInt8} {n : Nat} (ha : as.length ≤ n) (hb : bs.length ≤ n) :
    padTo n as = padTo n bs ↔ leValue as = leValue bs := by
  rw [← leValue_inj_of_length (by simp), leValue_padTo ha, leValue_padTo hb]

/-- A byte string whose value is small is, after padding, the padding of any other byte string of
that value: whatever lies beyond the first `n` bytes is zero. -/
theorem padTo_eq_of_value {as bs : List UInt8} {n : Nat} (hb : bs.length ≤ n)
    (h : leValue as = leValue bs) : padTo n as = padTo n bs := by
  by_cases ha : as.length ≤ n
  · exact (padTo_eq_iff ha hb).mpr h
  · have hn : n ≤ as.length := by omega
    have hsplit : leValue as = leValue (as.take n) + 256 ^ n * leValue (as.drop n) := by
      conv_lhs => rw [← List.take_append_drop n as]
      rw [leValue_append, List.length_take_of_le hn]
    have hdrop : leValue (as.drop n) = 0 := by
      by_contra hne
      have h1 : 256 ^ n ≤ 256 ^ n * leValue (as.drop n) := Nat.le_mul_of_pos_right _ (by omega)
      have h2 := leValue_lt hb
      omega
    have htake : leValue (as.take n) = leValue bs := by
      rw [hdrop] at hsplit
      omega
    have hpad : padTo n as = padTo n (as.take n) := by
      simp [padTo, show n - as.length = 0 by omega, show min n as.length = n by omega]
    rw [hpad]
    exact (padTo_eq_iff (by simp) hb).mpr htake

end NnsVerified.Library
