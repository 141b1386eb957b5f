import NnsVerified.Hull.Api
import NnsVerified.Hull.Payment
import NnsVerified.Kernel.Proofs.PredicatesProofs

/-!
# Names and fees on both sides

The kernel reads a name as an atom and measures it in bytes, the hull reads it as a text and
measures it in characters. The two agree on ASCII names, except that an atom does not keep the zero
bytes at its end.
-/

namespace NnsVerified.Hull

open NnsVerified.Hoon NnsVerified.Library NnsVerified.Kernel

/-! ## Fees -/

/-- A text does not end in a NUL character. -/
def NoNul (s : String) : Prop := ∀ h : s.toList ≠ [], s.toList.getLast h ≠ '\x00'

/-- The number of characters of a name before the suffix, or all of them where it has no suffix. -/
def stemChars (name : String) : Nat :=
  if ".nock".toList <:+ name.toList then name.toList.length - 5 else name.toList.length

theorem length_suffix : ".nock".toList.length = 5 := rfl

theorem feeForName_stemChars (name : String) :
    (feeForName name).toNat = feeOfLength (stemChars name) := by
  have hlen : ((stripSuffix name ".nock").getD name).length = stemChars name := by
    unfold stripSuffix stemChars endsWith
    by_cases hs : ".nock".toList <:+ name.toList
    · rw [if_pos (List.isSuffixOf_iff_suffix.mpr hs), if_pos hs, Option.getD_some, length_suffix,
        String.length_ofList, List.length_take]
      omega
    · rw [if_neg (fun h => hs (List.isSuffixOf_iff_suffix.mp h)), if_neg hs, Option.getD_none,
        String.length_toList]
  unfold feeForName feeOfLength
  simp only [hlen]
  split_ifs <;> rfl

theorem feeOfLength_antitone {m n : Nat} (h : m ≤ n) (hzero : m = 0 → n = 0) :
    feeOfLength n ≤ feeOfLength m := by
  unfold feeOfLength
  by_cases hm : m = 0
  · simp [hm, hzero hm]
  · split_ifs <;> omega

theorem nockSuffix_eq : nockSuffix = (utf8 ".nock").map UInt8.toNat := by
  rw [nockSuffix_bytes]
  rfl

/-- The bytes of a name end in the suffix where its characters do. -/
theorem nockSuffix_iff (name : String) :
    nockSuffix <:+ (utf8 name).map UInt8.toNat ↔ ".nock".toList <:+ name.toList := by
  rw [nockSuffix_eq, List.suffix_map_iff_of_injective fun _ _ h => UInt8.toNat_inj.mp h]
  exact utf8Chars_suffix_iff (by simp)

/-- The characters of a name before the suffix, or all of them where it has no suffix. -/
def stem (name : String) : List Char :=
  if ".nock".toList <:+ name.toList then name.toList.take (name.toList.length - 5) else name.toList

theorem length_stem (name : String) : (stem name).length = stemChars name := by
  unfold stem stemChars
  split_ifs
  · rw [List.length_take]
    omega
  · rfl

theorem stem_append {name : String} {front : List Char} (h : name.toList = front ++ ".nock".toList) :
    stem name = front := by
  have hlen : name.toList.length - 5 = front.length := by
    rw [h, List.length_append, length_suffix, Nat.add_sub_cancel]
  rw [stem, if_pos ⟨front, h.symm⟩, hlen, h, List.take_left]

/-- The kernel counts the bytes of the stem. -/
theorem stemLength_cord {name : String} (hname : NoNul name) :
    stemLength (rip 3 (cord name)) = (utf8Chars (stem name)).length := by
  rw [rip_cord hname, stemLength]
  by_cases hs : ".nock".toList <:+ name.toList
  · obtain ⟨front, hfront⟩ := id hs
    have hbytes5 : (utf8Chars ".nock".toList).length = 5 := rfl
    rw [if_pos ((nockSuffix_iff name).mpr hs), stem_append hfront.symm, utf8, ← hfront,
      List.length_map, utf8Chars_append, List.length_append, hbytes5, Nat.add_sub_cancel]
  · rw [if_neg fun h => hs ((nockSuffix_iff name).mp h), List.length_map, stem, if_neg hs, utf8]

/-- The fee of the hull is at least that of the kernel, which counts bytes. -/
theorem kernelFee_le {name : String} (hname : NoNul name) :
    feeOfLength (stemLength (rip 3 (cord name))) ≤ (feeForName name).toNat := by
  rw [feeForName_stemChars, stemLength_cord hname, ← length_stem]
  refine feeOfLength_antitone (length_le_length_utf8Chars _) fun hzero => ?_
  rw [List.length_eq_zero_iff.mp hzero]
  rfl

theorem feeOfLength_eq_iff {m n : Nat} (h : m ≤ n) (hzero : m = 0 → n = 0) :
    feeOfLength n = feeOfLength m ↔ ¬(m < 5 ∧ 5 ≤ n) ∧ ¬(m < 10 ∧ 10 ≤ n) := by
  unfold feeOfLength
  by_cases hm : m = 0
  · simp [hm, hzero hm]
  · split_ifs <;> omega

/-- The two fee schedules agree exactly on the names whose stem is in one tier in bytes and in
characters. -/
theorem feeForName_agrees (name : String) (hname : NoNul name) :
    Kernel.feeForName (cord name) = .ok (feeForName name).toNat ↔
      ¬((stem name).length < 5 ∧ 5 ≤ (utf8Chars (stem name)).length) ∧
      ¬((stem name).length < 10 ∧ 10 ≤ (utf8Chars (stem name)).length) := by
  rw [feeForName_eq, Except.ok.injEq, feeForName_stemChars, stemLength_cord hname, ← length_stem]
  refine feeOfLength_eq_iff (length_le_length_utf8Chars _) fun hzero => ?_
  rw [List.length_eq_zero_iff.mp hzero]
  rfl

theorem feeForName_agrees_ascii :
    Kernel.feeForName (cord "abcde.nock") = .ok (feeForName "abcde.nock").toNat :=
  (feeForName_agrees "abcde.nock" (by simp [NoNul])).mpr (by decide)

/-- Five characters of two bytes each. -/
theorem feeForName_differs :
    NoNul "ééééé.nock" ∧
      Kernel.feeForName (cord "ééééé.nock") ≠ .ok (feeForName "ééééé.nock").toNat := by
  unfold NoNul
  decide

/-! ## The grammar of names -/

/-- A character of a stem. -/
def isNameChar (c : Char) : Bool := isAsciiLowercase c || isAsciiDigit c

/-- One or more lowercase letters and digits, followed by `.nock`. -/
def NameGrammar (s : String) : Prop :=
  ∃ front, s.toList = front ++ ".nock".toList ∧ front ≠ [] ∧ ∀ c ∈ front, isNameChar c

/-- Lowercase letters and digits, then one or more NUL characters, then `.nock`. -/
def NulPadded (s : String) : Prop :=
  ∃ front k, s.toList = front ++ List.replicate (k + 1) '\x00' ++ ".nock".toList ∧
    ∀ c ∈ front, isNameChar c

theorem isNameChar_iff (c : Char) :
    isNameChar c = true ↔
      (97 ≤ c.toNat ∧ c.toNat ≤ 122) ∨ (48 ≤ c.toNat ∧ c.toNat ≤ 57) := by
  have hle : ∀ a b : Char, a ≤ b ↔ a.toNat ≤ b.toNat := fun a b => UInt32.le_iff_toNat_le
  simp only [isNameChar, isAsciiLowercase, isAsciiDigit, Bool.or_eq_true, Bool.and_eq_true,
    decide_eq_true_eq, hle]
  rfl

theorem not_isNameChar_nul : ¬isNameChar '\x00' = true := by decide

/-- The hull accepts exactly the grammar. -/
theorem isValidName_iff (s : String) : isValidName s = true ↔ NameGrammar s := by
  unfold isValidName stripSuffix endsWith NameGrammar
  by_cases hs : ".nock".toList <:+ s.toList
  · obtain ⟨front, hfront⟩ := id hs
    have htake : s.toList.take (s.toList.length - 5) = front := by
      rw [← hfront, List.length_append, length_suffix, Nat.add_sub_cancel, List.take_left]
    rw [if_pos (List.isSuffixOf_iff_suffix.mpr hs), length_suffix, htake]
    simp only [Bool.and_eq_true, Bool.not_eq_true', List.all_eq_true, String.toList_ofList]
    constructor
    · rintro ⟨hne, hchars⟩
      refine ⟨front, hfront.symm, ?_, hchars⟩
      rintro rfl
      simp at hne
    · rintro ⟨front', hfront', hne, hchars⟩
      obtain rfl := List.append_cancel_right (hfront.trans hfront')
      exact ⟨by simpa using hne, hchars⟩
  · rw [if_neg fun h => hs (List.isSuffixOf_iff_suffix.mp h)]
    constructor
    · simp
    · rintro ⟨front, hfront, -⟩
      exact absurd ⟨front, hfront.symm⟩ hs

/-- The bytes of a text are all valid exactly when its characters are. -/
theorem validChar_utf8Chars (cs : List Char) :
    (∀ b ∈ utf8Chars cs, validChar b.toNat = true) ↔ ∀ c ∈ cs, isNameChar c := by
  induction cs with
  | nil => simp
  | cons c cs ih =>
    rw [utf8Chars_cons, List.forall_mem_append, List.forall_mem_cons, ih]
    refine and_congr_left fun _ => ?_
    rw [isNameChar_iff]
    rcases utf8EncodeChar_cases c with ⟨hc, he⟩ | ⟨hc, hne, hbig⟩
    · have hbyte : (UInt8.ofNat c.toNat).toNat = c.toNat := by
        rw [UInt8.toNat_ofNat']
        omega
      rw [he, List.forall_mem_singleton, validChar_iff, hbyte]
    · constructor
      · intro hvalid
        obtain ⟨b, hb⟩ := List.exists_mem_of_ne_nil _ hne
        have h1 := hbig b hb
        have h2 := validChar_ascii (hvalid b hb)
        omega
      · omega

/-- The kernel sees the stem without the NUL characters at its end. -/
theorem allValidChars_stem (front : List Char) :
    allValidChars (leValue (utf8Chars front)) = true ↔
      ∀ c ∈ front.rdropWhile (fun c => c = '\x00'), isNameChar c := by
  rw [allValidChars_iff, rip_three, digits_leValue_rdropWhile, List.forall_mem_map,
    rdropWhile_utf8Chars, validChar_utf8Chars]

theorem forall_mem_rdropWhile_iff (front : List Char) (P : Char → Prop) :
    (∀ c ∈ front.rdropWhile (fun c => c = '\x00'), P c) ↔
      ∃ init k, front = init ++ List.replicate k '\x00' ∧ ∀ c ∈ init, P c := by
  constructor
  · intro h
    refine ⟨_, (front.rtakeWhile fun c => c = '\x00').length, ?_, h⟩
    have hnuls : front.rtakeWhile (fun c => c = '\x00')
        = List.replicate (front.rtakeWhile fun c => c = '\x00').length '\x00' :=
      List.eq_replicate_of_mem fun c hc => by simpa using List.mem_rtakeWhile_imp hc
    rw [← hnuls, List.rdropWhile_append_rtakeWhile]
  · rintro ⟨init, k, rfl, h⟩
    have hdrop : (init ++ List.replicate k '\x00').rdropWhile (fun c => c = '\x00')
        = init.rdropWhile fun c => c = '\x00' := by
      induction k with
      | zero => simp
      | succ k ih =>
        rw [List.replicate_succ', ← List.append_assoc, List.rdropWhile_concat_pos _ _ _ (by simp), ih]
    rw [hdrop]
    exact fun c hc => h c ((List.rdropWhile_prefix _ _).subset hc)

/-- What the kernel requires of a text. -/
theorem validName_cord_iff {s : String} (hs : NoNul s) :
    ValidName (cord s) ↔ ∃ front, s.toList = front ++ ".nock".toList ∧ front ≠ [] ∧
      ∀ c ∈ front.rdropWhile (fun c => c = '\x00'), isNameChar c := by
  have hparts : ∀ front, s.toList = front ++ ".nock".toList →
      met 3 (cord s) = (utf8Chars front).length + 5 ∧
        cut 3 0 (utf8Chars front).length (cord s) = leValue (utf8Chars front) := by
    intro front hfront
    have hrip : rip 3 (cord s)
        = (utf8Chars front).map UInt8.toNat ++ (utf8Chars ".nock".toList).map UInt8.toNat := by
      rw [rip_cord hs, utf8, hfront, utf8Chars_append, List.map_append]
    refine ⟨?_, ?_⟩
    · unfold met
      rw [hrip, List.length_append, List.length_map]
      rfl
    · rw [cut_three, List.drop_zero, hrip, List.take_left' (List.length_map _), leValue]
  unfold ValidName
  rw [rip_cord hs, nockSuffix_iff]
  constructor
  · rintro ⟨hlen, ⟨front, hfront⟩, hvalid⟩
    obtain ⟨hmet, hcut⟩ := hparts front hfront.symm
    rw [hmet, Nat.add_sub_cancel, hcut, allValidChars_stem] at hvalid
    refine ⟨front, hfront.symm, ?_, hvalid⟩
    rintro rfl
    simp at hmet
    omega
  · rintro ⟨front, hfront, hne, hvalid⟩
    obtain ⟨hmet, hcut⟩ := hparts front hfront
    have hpos : front.length ≠ 0 := fun h => hne (List.length_eq_zero_iff.mp h)
    have hle := length_le_length_utf8Chars front
    refine ⟨by omega, ⟨front, hfront.symm⟩, ?_⟩
    rw [hmet, Nat.add_sub_cancel, hcut, allValidChars_stem]
    exact hvalid

/-- The kernel accepts the grammar and, besides it, names whose stem is padded with NULs. -/
theorem isValidName_cord_iff {s : String} (hs : NoNul s) :
    Kernel.isValidName (cord s) = .ok true ↔ NameGrammar s ∨ NulPadded s := by
  rw [isValidName_true, validName_cord_iff hs]
  constructor
  · rintro ⟨front, hfront, hne, hvalid⟩
    obtain ⟨init, k, rfl, hchars⟩ := (forall_mem_rdropWhile_iff front _).mp hvalid
    cases k with
    | zero =>
      rw [List.replicate_zero, List.append_nil] at hfront hne
      exact Or.inl ⟨init, hfront, hne, hchars⟩
    | succ k => exact Or.inr ⟨init, k, hfront, hchars⟩
  · rintro (⟨front, hfront, hne, hchars⟩ | ⟨front, k, hfront, hchars⟩)
    · exact ⟨front, hfront, hne, (forall_mem_rdropWhile_iff front _).mpr ⟨front, 0, by simp, hchars⟩⟩
    · refine ⟨_, hfront, by simp, (forall_mem_rdropWhile_iff _ _).mpr ⟨front, k + 1, rfl, hchars⟩⟩

/-- The kernel, the hull and the grammar agree exactly on the texts that are not padded names. -/
theorem isValidName_agrees (s : String) (hs : NoNul s) :
    ((Kernel.isValidName (cord s) = .ok true ↔ NameGrammar s) ∧
      (NameGrammar s ↔ isValidName s = true)) ↔ ¬NulPadded s := by
  have hdisjoint : NulPadded s → ¬NameGrammar s := by
    rintro ⟨front, k, hpad, -⟩ ⟨front', hgrammar, -, hchars⟩
    obtain rfl := List.append_cancel_right (hpad.symm.trans hgrammar)
    exact not_isNameChar_nul (hchars _ (by simp))
  rw [isValidName_cord_iff hs, isValidName_iff]
  tauto

theorem isValidName_agrees_ab :
    (Kernel.isValidName (cord "ab.nock") = .ok true ↔ NameGrammar "ab.nock") ∧
      (NameGrammar "ab.nock" ↔ isValidName "ab.nock" = true) := by
  refine (isValidName_agrees "ab.nock" (by simp [NoNul])).mpr ?_
  rintro ⟨front, k, hpad, -⟩
  have hnul : '\x00' ∈ "ab.nock".toList := by rw [hpad]; simp
  revert hnul
  decide

/-- The kernel accepts a NUL between the stem and the suffix. -/
theorem isValidName_padded :
    NoNul "a\x00.nock" ∧
      ¬((Kernel.isValidName (cord "a\x00.nock") = .ok true ↔ NameGrammar "a\x00.nock") ∧
        (NameGrammar "a\x00.nock" ↔ isValidName "a\x00.nock" = true)) := by
  refine ⟨by simp [NoNul], ?_⟩
  rintro ⟨hkernel, hhull⟩
  have hruns : Kernel.isValidName (cord "a\x00.nock") = .ok true ∧
      isValidName "a\x00.nock" = false := by decide
  have hrejects : isValidName "a\x00.nock" = true := hhull.mp (hkernel.mp hruns.1)
  rw [hruns.2] at hrejects
  cases hrejects

end NnsVerified.Hull
