import NnsVerified.Kernel.Predicates

/-!
# `nns-predicates.hoon`: names, fees and claims

None of the predicates on a claim crashes, whatever the atoms in it: the subtractions are guarded by
the length of the cord. `is-valid-name` and `fee-for-name` are computed from the bytes of the name.
-/

namespace NnsVerified.Kernel

open NnsVerified.Hoon NnsVerified.Library

/-! ## The suffix -/

/-- The bytes of `.nock`. -/
def nockSuffix : List Nat := rip 3 (cord ".nock")

theorem nockSuffix_bytes : nockSuffix = [46, 110, 111, 99, 107] := by decide

theorem length_nockSuffix : nockSuffix.length = 5 := by rw [nockSuffix_bytes]; rfl

/-- The comparison of the last five bytes with the cord `.nock`. -/
theorem cut_eq_nock_iff {c : Nat} (h : 5 ≤ met 3 c) :
    cut 3 (met 3 c - 5) 5 c = cord ".nock" ↔ nockSuffix <:+ rip 3 c := by
  have hlen : ((rip 3 c).drop (met 3 c - 5)).length = 5 := by
    rw [List.length_drop]
    unfold met at h ⊢
    omega
  have htake : ((rip 3 c).drop (met 3 c - 5)).take 5 = (rip 3 c).drop (met 3 c - 5) :=
    List.take_of_length_le (le_of_eq hlen)
  have hcord : cord ".nock" = Nat.ofDigits 256 nockSuffix := (Nat.ofDigits_digits 256 _).symm
  rw [cut_three, htake, hcord, List.suffix_iff_eq_drop, length_nockSuffix]
  constructor
  · intro heq
    refine (Nat.ofDigits_inj_of_len_eq (b := 256) (by norm_num) ?_ ?_ ?_ heq).symm
    · rw [hlen, length_nockSuffix]
    · exact fun d hd => rip_three_lt (List.mem_of_mem_drop hd)
    · exact fun d hd => rip_three_lt hd
  · intro heq
    exact congrArg _ heq.symm

theorem hasNockSuffix_eq (c : Nat) :
    hasNockSuffix c = .ok (decide (6 ≤ met 3 c ∧ nockSuffix <:+ rip 3 c)) := by
  unfold hasNockSuffix
  by_cases h : met 3 c < 6
  · simp [h, Nat.not_le.mpr h]
  · have h6 : 6 ≤ met 3 c := Nat.not_lt.mp h
    have h5 : 5 ≤ met 3 c := by omega
    simp [h, h6, sub_of_le h5, cut_eq_nock_iff h5]

/-! ## Names -/

/-- What `is-valid-name` decides: at least one byte before the suffix, and the cord of these bytes
has valid characters only. -/
def ValidName (name : Nat) : Prop :=
  6 ≤ met 3 name ∧ nockSuffix <:+ rip 3 name ∧
    allValidChars (cut 3 0 (met 3 name - 5) name) = true

instance (name : Nat) : Decidable (ValidName name) := instDecidableAnd

theorem isValidName_eq (name : Nat) : isValidName name = .ok (decide (ValidName name)) := by
  unfold isValidName ValidName
  rw [hasNockSuffix_eq]
  by_cases h : 6 ≤ met 3 name ∧ nockSuffix <:+ rip 3 name
  · have h5 : 5 ≤ met 3 name := by omega
    have hpos : met 3 name - 5 ≠ 0 := by omega
    simp [h, stemLen, sub_of_le h5, hpos]
  · have h' : ¬(6 ≤ met 3 name ∧ nockSuffix <:+ rip 3 name ∧
        allValidChars (cut 3 0 (met 3 name - 5) name) = true) := fun hv => h ⟨hv.1, hv.2.1⟩
    simp only [h, h', decide_false, ok_bind]
    rfl

theorem isValidName_true {name : Nat} : isValidName name = .ok true ↔ ValidName name := by
  rw [isValidName_eq, Except.ok.injEq, decide_eq_true_iff]

theorem validChar_iff (n : Nat) :
    validChar n = true ↔ (97 ≤ n ∧ n ≤ 122) ∨ (48 ≤ n ∧ n ≤ 57) := by
  have hcords : cord "a" = 97 ∧ cord "z" = 122 ∧ cord "0" = 48 ∧ cord "9" = 57 := by decide
  obtain ⟨ha, hz, h0, h9⟩ := hcords
  simp only [validChar, ha, hz, h0, h9, Bool.or_eq_true, Bool.and_eq_true, decide_eq_true_eq,
    ge_iff_le]

theorem validChar_ascii {c : Nat} (h : validChar c = true) : c < 128 := by
  rw [validChar_iff] at h
  omega

theorem validChar_of_mem {c d : Nat} (h : allValidChars c = true) (hd : d ∈ rip 3 c) :
    validChar d = true := by
  obtain ⟨i, hi, rfl⟩ := List.getElem_of_mem hd
  have hchar := List.all_eq_true.mp h i (List.mem_range.mpr hi)
  rw [cut_three_one hi] at hchar
  exact hchar

theorem allValidChars_iff (c : Nat) :
    allValidChars c = true ↔ ∀ d ∈ rip 3 c, validChar d = true := by
  constructor
  · intro h d hd
    exact validChar_of_mem h hd
  · intro h
    refine List.all_eq_true.mpr fun i hi => ?_
    have hi' : i < met 3 c := List.mem_range.mp hi
    rw [cut_three_one hi']
    exact h _ (List.get_mem _ _)

/-! ## Fees -/

/-- The fee schedule on the length of a stem. -/
def feeOfLength (slen : Nat) : Nat :=
  if slen = 0 then 0 else if slen ≥ 10 then 6553600 else if slen ≥ 5 then 32768000 else 327680000

/-- The number of bytes of a name before the suffix, or all of them where it has no suffix. -/
def stemLength (bytes : List Nat) : Nat :=
  if nockSuffix <:+ bytes then bytes.length - 5 else bytes.length

theorem feeForName_eq (name : Nat) :
    feeForName name = .ok (feeOfLength (stemLength (rip 3 name))) := by
  have hfee : ∀ slen : Nat, (if slen = 0 then (pure 0 : Eval Nat) else if slen ≥ 10 then pure 6553600
      else if slen ≥ 5 then pure 32768000 else pure 327680000) = .ok (feeOfLength slen) := by
    intro slen
    unfold feeOfLength
    split_ifs <;> rfl
  unfold feeForName stemLength
  by_cases h : met 3 name < 5
  · have hno : ¬nockSuffix <:+ rip 3 name := by
      intro hs
      have hle := hs.length_le
      rw [length_nockSuffix] at hle
      exact absurd hle (Nat.not_le.mpr h)
    simp only [if_pos h, if_neg hno]
    exact hfee (met 3 name)
  · have h5 : 5 ≤ met 3 name := Nat.not_lt.mp h
    simp only [if_neg h, sub_of_le h5, ok_bind, pure_eq_ok, cut_eq_nock_iff h5]
    by_cases hs : nockSuffix <:+ rip 3 name
    · simp only [decide_true, hs, if_true]
      exact hfee (met 3 name - 5)
    · simp only [decide_false, hs, if_false, Bool.false_eq_true]
      exact hfee (met 3 name)

/-! ## Claims -/

/-- The predicates of `valid-claim`, on a claim of a block. -/
def ValidClaim (pag : NnsPageSummary) (c : NnsClaim) : Prop :=
  ValidName c.name ∧ feeOfLength (stemLength (rip 3 c.name)) ≤ c.fee ∧ hasTxInPage pag c.txHash ∧
    matchesTxId c.witness c.txHash ∧ senderIsOwner c.witness c.owner ∧ paysAmount c.witness c.fee ∧
    matchesTreasury c.witness

instance (pag : NnsPageSummary) (c : NnsClaim) : Decidable (ValidClaim pag c) := instDecidableAnd

/-- `valid-claim` never crashes. -/
theorem validClaim_eq (pag : NnsPageSummary) (c : NnsClaim) :
    validClaim pag c = .ok (decide (ValidClaim pag c)) := by
  unfold validClaim ValidClaim
  rw [isValidName_eq, feeForName_eq]
  by_cases hname : ValidName c.name
  · by_cases hfee : feeOfLength (stemLength (rip 3 c.name)) ≤ c.fee
    · simp [hname, hfee, Nat.not_lt.mpr hfee, Bool.decide_and, Bool.and_assoc]
    · simp [hname, hfee]
  · simp [hname]

theorem hasTxInList_iff (ids : List Nat) (txId : Nat) : hasTxInList ids txId = true ↔ txId ∈ ids := by
  induction ids with
  | nil => simp [hasTxInList]
  | cons i t ih =>
    rw [hasTxInList, List.mem_cons]
    by_cases h : i = txId
    · simp [h]
    · simp [h, ih, Ne.symm h]

end NnsVerified.Kernel
