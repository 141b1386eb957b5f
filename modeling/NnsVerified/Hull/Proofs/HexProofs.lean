import Mathlib.Data.List.Induction
import NnsVerified.Hull.Hex

/-!
# What `hex_decode_even` decodes

The loop slices the bytes of the text two by two. It reads a text as pairs of ASCII characters, of
which the integer parser also takes those with a plus sign in front, and it panics where a slice
ends within a character. It decodes exactly the hexadecimal texts, and never panics, on the texts
where neither happens.
-/

namespace NnsVerified.Hull

open NnsVerified.Library

/-! ## Hexadecimal texts -/

/-- The value of a digit in `0-9a-fA-F`. -/
def hexValue (c : Char) : Option Nat :=
  if 48 ≤ c.toNat && c.toNat ≤ 57 then some (c.toNat - 48)
  else if 97 ≤ c.toNat && c.toNat ≤ 102 then some (c.toNat - 87)
  else if 65 ≤ c.toNat && c.toNat ≤ 70 then some (c.toNat - 55)
  else none

/-- The byte of two digits. -/
def hexPair (a b : Char) : Option UInt8 := do
  let x ← hexValue a
  let y ← hexValue b
  some (UInt8.ofNat (16 * x + y))

/-- The bytes of a text of an even number of digits. -/
def hexBytes : List Char → Option (List UInt8)
  | [] => some []
  | [_] => none
  | a :: b :: rest => do
    let v ← hexPair a b
    let bs ← hexBytes rest
    some (v :: bs)

/-! ## Pairs that the loop takes -/

/-- What the integer parser makes of two ASCII characters. -/
def pairByte (a b : Char) : Option UInt8 :=
  if a = '+' then (hexValue b).map UInt8.ofNat else hexPair a b

/-- A text is a list of pairs that the parser takes, followed by a rest. -/
structure ReadsHex (cs : List Char) (us : List (Char × Char)) (rest : List Char) : Prop where
  text : cs = us.flatMap (fun u => [u.1, u.2]) ++ rest
  taken : ∀ u ∈ us, (pairByte u.1 u.2).isSome

/-- The next slice of two bytes ends within a character. -/
def SliceEndsInside (rest : List Char) : Prop :=
  (∃ c ∈ rest.head?, 3 ≤ c.utf8Size) ∨
    ∃ a c t, rest = a :: c :: t ∧ a.utf8Size = 1 ∧ 2 ≤ c.utf8Size

theorem reads_nil {us : List (Char × Char)} {rest : List Char} :
    ReadsHex [] us rest ↔ us = [] ∧ rest = [] := by
  constructor
  · intro h
    obtain ⟨hus, hrest⟩ := List.append_eq_nil_iff.mp h.text.symm
    refine ⟨?_, hrest⟩
    cases us with
    | nil => rfl
    | cons u us => simp at hus
  · rintro ⟨rfl, rfl⟩
    exact ⟨rfl, by simp⟩

theorem reads_singleton {c : Char} {us : List (Char × Char)} {rest : List Char} :
    ReadsHex [c] us rest ↔ us = [] ∧ rest = [c] := by
  constructor
  · intro h
    cases us with
    | nil => exact ⟨rfl, h.text.symm⟩
    | cons u us => simpa using congrArg List.length h.text
  · rintro ⟨rfl, rfl⟩
    exact ⟨rfl, by simp⟩

/-- The loop stops before two characters, or reads them as a pair. -/
theorem reads_cons {a b : Char} {cs rest : List Char} {us : List (Char × Char)} :
    ReadsHex (a :: b :: cs) us rest ↔ (us = [] ∧ rest = a :: b :: cs) ∨
      ∃ us', us = (a, b) :: us' ∧ (pairByte a b).isSome ∧ ReadsHex cs us' rest := by
  constructor
  · intro h
    cases us with
    | nil => exact Or.inl ⟨rfl, h.text.symm⟩
    | cons u us =>
      have htext := h.text
      simp only [List.flatMap_cons, List.cons_append, List.nil_append, List.cons.injEq] at htext
      obtain ⟨rfl, rfl, hcs⟩ := htext
      exact Or.inr ⟨us, rfl, h.taken u (by simp), hcs, fun v hv => h.taken v (by simp [hv])⟩
  · rintro (⟨rfl, rfl⟩ | ⟨us', rfl, hab, htext, htaken⟩)
    · exact ⟨rfl, by simp⟩
    · refine ⟨by simp [htext], fun u hu => ?_⟩
      rcases List.mem_cons.mp hu with rfl | hu
      · exact hab
      · exact htaken u hu

/-- A text is read to its end in one way. -/
theorem ReadsHex.unique {cs : List Char} {us us' : List (Char × Char)} (h : ReadsHex cs us [])
    (h' : ReadsHex cs us' []) : us = us' := by
  induction us generalizing cs us' with
  | nil =>
    obtain rfl : cs = [] := by simpa using h.text
    exact (reads_nil.mp h').1.symm
  | cons u us ih =>
    obtain ⟨a, b⟩ := u
    obtain rfl : cs = a :: b :: us.flatMap fun u => [u.1, u.2] := by simpa using h.text
    rcases reads_cons.mp h with ⟨hnil, -⟩ | ⟨us₁, heq, -, hrest⟩
    · exact absurd hnil (List.cons_ne_nil _ _)
    · obtain ⟨-, rfl⟩ := List.cons.inj heq
      rcases reads_cons.mp h' with ⟨-, hnil⟩ | ⟨us₂, rfl, -, hrest'⟩
      · exact absurd hnil.symm (List.cons_ne_nil _ _)
      · rw [ih hrest hrest']

/-! ## ASCII characters -/

/-- The parser reads the byte of an ASCII digit as the digit. -/
theorem hexDigit_ofNat {c : Char} (hc : c.toNat < 128) :
    hexDigit (UInt8.ofNat c.toNat) = hexValue c := by
  have hnat : (UInt8.ofNat c.toNat).toNat = c.toNat := by
    rw [UInt8.toNat_ofNat']
    omega
  unfold hexDigit hexValue
  simp only [UInt8.le_iff_toNat_le, hnat]
  rfl

theorem hexValue_ascii {c : Char} (h : (hexValue c).isSome) : c.toNat < 128 := by
  by_contra hbig
  simp [hexValue, show ¬c.toNat ≤ 57 by omega, show ¬c.toNat ≤ 102 by omega,
    show ¬c.toNat ≤ 70 by omega] at h

theorem hexValue_plus : hexValue '+' = none := rfl

theorem fromStrRadix16_ofNat {a b : Char} (ha : a.toNat < 128) (hb : b.toNat < 128) :
    fromStrRadix16 (UInt8.ofNat a.toNat) (UInt8.ofNat b.toNat) = pairByte a b := by
  have hplus : UInt8.ofNat a.toNat = 43 ↔ a = '+' := by
    rw [← UInt8.toNat_inj, UInt8.toNat_ofNat', ← Char.toNat_inj]
    show a.toNat % 256 = 43 ↔ a.toNat = 43
    omega
  simp only [fromStrRadix16, pairByte, hexPair, hexDigit_ofNat ha, hexDigit_ofNat hb, hplus]

theorem pairByte_ascii {a b : Char} (h : (pairByte a b).isSome) :
    a.toNat < 128 ∧ b.toNat < 128 := by
  unfold pairByte at h
  split at h
  · rename_i hplus
    rw [Option.isSome_map] at h
    exact ⟨by rw [hplus]; decide, hexValue_ascii h⟩
  · unfold hexPair at h
    obtain ⟨v, hv⟩ := Option.isSome_iff_exists.mp h
    obtain ⟨x, hx, hv⟩ := Option.bind_eq_some_iff.mp hv
    obtain ⟨y, hy, -⟩ := Option.bind_eq_some_iff.mp hv
    exact ⟨hexValue_ascii (by simp [hx]), hexValue_ascii (by simp [hy])⟩

theorem utf8Size_eq_one_iff_ascii (c : Char) : c.utf8Size = 1 ↔ c.toNat < 128 := by
  rcases utf8EncodeChar_shape c with ⟨hsize, hlt, -⟩ | ⟨hsize, hge, -⟩
  · exact iff_of_true hsize hlt
  · exact iff_of_false (by omega) (by omega)

theorem length_utf8Chars_pair {a b : Char} (ha : a.toNat < 128) (hb : b.toNat < 128)
    (cs : List Char) : (utf8Chars (a :: b :: cs)).length = (utf8Chars cs).length + 2 := by
  rw [utf8Chars_cons, utf8Chars_cons, List.length_append, List.length_append,
    String.length_utf8EncodeChar, String.length_utf8EncodeChar,
    (utf8Size_eq_one_iff_ascii a).mpr ha, (utf8Size_eq_one_iff_ascii b).mpr hb]
  omega

/-! ## One step of the loop -/

/-- No text starts within a character. -/
theorem head_utf8Chars (cs : List Char) : (utf8Chars cs).head?.any isContinuation = false := by
  cases cs with
  | nil => rfl
  | cons c cs =>
    rcases utf8EncodeChar_shape c with ⟨-, hlt, he⟩ | ⟨-, -, lead, rest, he, hlead, -⟩
    · have hnat : (UInt8.ofNat c.toNat).toNat = c.toNat := by
        rw [UInt8.toNat_ofNat']
        omega
      rw [utf8Chars_cons, he]
      simp [isContinuation, UInt8.le_iff_toNat_le, hnat, hlt]
    · rw [utf8Chars_cons, he]
      simp [isContinuation, UInt8.lt_iff_toNat_lt, Nat.not_lt.mpr hlead]

theorem isContinuation_of_mem {b : UInt8} (h : 128 ≤ b.toNat ∧ b.toNat < 192) :
    isContinuation b = true := by
  simp [isContinuation, UInt8.le_iff_toNat_le, UInt8.lt_iff_toNat_lt, h.1, h.2]

theorem loop_ascii_ascii {a b : Char} (ha : a.toNat < 128) (hb : b.toNat < 128) (cs : List Char) :
    hexDecodeEven.loop (utf8Chars (a :: b :: cs)) =
      match pairByte a b with
      | none => .error (.message "invalid digit found in string")
      | some v => (hexDecodeEven.loop (utf8Chars cs)).map (v :: ·) := by
  rcases utf8EncodeChar_shape a with ⟨-, -, hea⟩ | ⟨-, hge, -⟩
  · rcases utf8EncodeChar_shape b with ⟨-, -, heb⟩ | ⟨-, hge, -⟩
    · rw [utf8Chars_cons, utf8Chars_cons, hea, heb, List.singleton_append, List.singleton_append,
        hexDecodeEven.loop, head_utf8Chars, fromStrRadix16_ofNat ha hb]
      rfl
    · omega
  · omega

/-- A slice of an ASCII character and the lead of the next panics. -/
theorem loop_ascii_wide {a b : Char} (ha : a.toNat < 128) (hb : 2 ≤ b.utf8Size) (cs : List Char) :
    hexDecodeEven.loop (utf8Chars (a :: b :: cs)) = .error .panic := by
  rcases utf8EncodeChar_shape a with ⟨-, -, hea⟩ | ⟨-, hge, -⟩
  · rcases utf8EncodeChar_shape b with ⟨hsize, -⟩ | ⟨-, -, lead, rest, heb, -, hlen, hrest⟩
    · omega
    · cases rest with
      | nil =>
        rw [List.length_nil] at hlen
        omega
      | cons x rest =>
        rw [utf8Chars_cons, utf8Chars_cons, hea, heb, List.singleton_append, List.cons_append,
          List.cons_append, hexDecodeEven.loop]
        simp [isContinuation_of_mem (hrest x (by simp))]
  · omega

/-- The slice of a character of two bytes is no number. -/
theorem loop_two {a : Char} (ha : a.utf8Size = 2) (cs : List Char) :
    hexDecodeEven.loop (utf8Chars (a :: cs)) = .error (.message "invalid digit found in string") := by
  rcases utf8EncodeChar_shape a with ⟨hsize, -⟩ | ⟨-, -, lead, rest, hea, hlead, hlen, -⟩
  · omega
  · obtain ⟨x, rfl⟩ := List.length_eq_one_iff.mp (show rest.length = 1 by omega)
    have hparse : fromStrRadix16 lead x = none := by
      have hplus : lead ≠ 43 := by
        rintro rfl
        simp at hlead
      have hdigit : hexDigit lead = none := by
        simp [hexDigit, UInt8.le_iff_toNat_le, show ¬lead.toNat ≤ 57 by omega,
          show ¬lead.toNat ≤ 102 by omega, show ¬lead.toNat ≤ 70 by omega]
      simp [fromStrRadix16, hplus, hdigit]
    rw [utf8Chars_cons, hea, List.cons_append, List.singleton_append, hexDecodeEven.loop,
      head_utf8Chars, hparse]
    rfl

/-- A slice of a longer character panics. -/
theorem loop_three {a : Char} (ha : 3 ≤ a.utf8Size) (cs : List Char) :
    hexDecodeEven.loop (utf8Chars (a :: cs)) = .error .panic := by
  rcases utf8EncodeChar_shape a with ⟨hsize, -⟩ | ⟨-, -, lead, rest, hea, -, hlen, hrest⟩
  · omega
  · match rest, hlen, hrest with
    | [], hlen, _ => simp at hlen; omega
    | [x], hlen, _ => simp at hlen; omega
    | x :: y :: rest, _, hrest =>
      rw [utf8Chars_cons, hea, List.cons_append, List.cons_append, List.cons_append,
        hexDecodeEven.loop]
      simp [isContinuation_of_mem (hrest y (by simp))]

/-- The widths that two characters can have. -/
theorem width_cases (a : Char) : a.toNat < 128 ∨ a.utf8Size = 2 ∨ 3 ≤ a.utf8Size := by
  rcases utf8EncodeChar_shape a with ⟨-, hlt, -⟩ | ⟨hsize, -⟩
  · exact Or.inl hlt
  · omega

/-! ## The whole loop -/

/-- What holds of a reading, split at its first pair. -/
theorem exists_reads_cons {a b : Char} {cs : List Char}
    {Q : List (Char × Char) → List Char → Prop} :
    (∃ us rest, ReadsHex (a :: b :: cs) us rest ∧ Q us rest) ↔ Q [] (a :: b :: cs) ∨
      (pairByte a b).isSome ∧ ∃ us rest, ReadsHex cs us rest ∧ Q ((a, b) :: us) rest := by
  constructor
  · rintro ⟨us, rest, hreads, hQ⟩
    rcases reads_cons.mp hreads with ⟨rfl, rfl⟩ | ⟨us', rfl, hab, hrest⟩
    · exact Or.inl hQ
    · exact Or.inr ⟨hab, us', rest, hrest, hQ⟩
  · rintro (hQ | ⟨hab, us, rest, hreads, hQ⟩)
    · exact ⟨[], _, reads_cons.mpr (Or.inl ⟨rfl, rfl⟩), hQ⟩
    · exact ⟨_, rest, reads_cons.mpr (Or.inr ⟨us, rfl, hab, hreads⟩), hQ⟩

theorem sliceEndsInside_cons_cons {a b : Char} {cs : List Char} :
    SliceEndsInside (a :: b :: cs) ↔ 3 ≤ a.utf8Size ∨ (a.utf8Size = 1 ∧ 2 ≤ b.utf8Size) := by
  simp only [SliceEndsInside, List.head?_cons, Option.mem_some_iff, exists_eq_left', List.cons.injEq]
  refine or_congr_right ⟨?_, ?_⟩
  · rintro ⟨_, _, _, ⟨rfl, rfl, rfl⟩, ha, hb⟩
    exact ⟨ha, hb⟩
  · rintro ⟨ha, hb⟩
    exact ⟨a, b, cs, ⟨rfl, rfl, rfl⟩, ha, hb⟩

/-- One step: a pair is read, or the slice panics, or it is no number. -/
theorem loop_cons_cons (a b : Char) (cs : List Char) :
    (∃ v, pairByte a b = some v ∧ ¬SliceEndsInside (a :: b :: cs) ∧
      hexDecodeEven.loop (utf8Chars (a :: b :: cs)) =
        (hexDecodeEven.loop (utf8Chars cs)).map (v :: ·)) ∨
    (pairByte a b = none ∧ SliceEndsInside (a :: b :: cs) ∧
      hexDecodeEven.loop (utf8Chars (a :: b :: cs)) = .error .panic) ∨
    (pairByte a b = none ∧ ¬SliceEndsInside (a :: b :: cs) ∧
      ∃ e, hexDecodeEven.loop (utf8Chars (a :: b :: cs)) = .error (.message e)) := by
  rw [sliceEndsInside_cons_cons]
  have hnone : ¬(a.utf8Size = 1 ∧ b.utf8Size = 1) → pairByte a b = none := by
    intro hwide
    by_contra hsome
    obtain ⟨ha, hb⟩ := pairByte_ascii (Option.isSome_iff_ne_none.mpr hsome)
    exact hwide ⟨(utf8Size_eq_one_iff_ascii a).mpr ha, (utf8Size_eq_one_iff_ascii b).mpr hb⟩
  rcases width_cases a with ha | ha | ha
  · have hasize := (utf8Size_eq_one_iff_ascii a).mpr ha
    by_cases hb : b.toNat < 128
    · have hbsize := (utf8Size_eq_one_iff_ascii b).mpr hb
      rw [loop_ascii_ascii ha hb]
      cases hab : pairByte a b with
      | none => exact Or.inr (Or.inr ⟨rfl, by omega, _, rfl⟩)
      | some v => exact Or.inl ⟨v, rfl, by omega, rfl⟩
    · have hbsize : 2 ≤ b.utf8Size := by
        have hpos := b.utf8Size_pos
        have hne : b.utf8Size ≠ 1 := fun h => hb ((utf8Size_eq_one_iff_ascii b).mp h)
        omega
      exact Or.inr (Or.inl ⟨hnone (by omega), Or.inr ⟨hasize, hbsize⟩, loop_ascii_wide ha hbsize cs⟩)
  · exact Or.inr (Or.inr ⟨hnone (by omega), by omega, _, loop_two ha (b :: cs)⟩)
  · exact Or.inr (Or.inl ⟨hnone (by omega), Or.inl ha, loop_three ha (b :: cs)⟩)

/-- The loop panics where it has read pairs up to a slice that ends within a character. -/
theorem loop_panic_iff (cs : List Char) : hexDecodeEven.loop (utf8Chars cs) = .error .panic ↔
    ∃ us rest, ReadsHex cs us rest ∧ SliceEndsInside rest := by
  induction cs using hexBytes.induct with
  | case1 => simp [hexDecodeEven.loop, reads_nil, SliceEndsInside]
  | case2 c =>
    have hrest : (∃ us rest, ReadsHex [c] us rest ∧ SliceEndsInside rest) ↔ 3 ≤ c.utf8Size := by
      simp [reads_singleton, SliceEndsInside]
    rw [hrest]
    rcases width_cases c with hc | hc | hc
    · have hsize := (utf8Size_eq_one_iff_ascii c).mpr hc
      rcases utf8EncodeChar_shape c with ⟨-, -, he⟩ | ⟨-, hge, -⟩
      · simp [he, hexDecodeEven.loop, hsize]
      · omega
    · rw [loop_two hc]
      simp [hc]
    · rw [loop_three hc]
      simp [hc]
  | case3 a b cs ih =>
    rw [exists_reads_cons]
    rcases loop_cons_cons a b cs with ⟨v, hab, hslice, hloop⟩ | ⟨hab, hslice, hloop⟩ |
      ⟨hab, hslice, e, hloop⟩
    · have hmap : (hexDecodeEven.loop (utf8Chars cs)).map (v :: ·) = .error .panic ↔
          hexDecodeEven.loop (utf8Chars cs) = .error .panic := by
        cases hexDecodeEven.loop (utf8Chars cs) <;> simp [Except.map]
      rw [hloop, hmap, ih]
      simp [hab, hslice]
    · rw [hloop]
      simp [hslice]
    · rw [hloop]
      simp [hab, hslice]

/-- The bytes of the pairs of a reading. -/
def pairBytes (us : List (Char × Char)) : Option (List UInt8) := us.mapM fun u => pairByte u.1 u.2

/-- A text read to its end, split at its first pair. -/
theorem reads_to_end_cons {a b : Char} {cs : List Char} {bs : List UInt8} :
    (∃ us, ReadsHex (a :: b :: cs) us [] ∧ pairBytes us = some bs) ↔
      ∃ v vs, pairByte a b = some v ∧ (∃ us, ReadsHex cs us [] ∧ pairBytes us = some vs) ∧
        bs = v :: vs := by
  constructor
  · rintro ⟨us, h, hbytes⟩
    rcases reads_cons.mp h with ⟨-, hnil⟩ | ⟨us', rfl, -, hrest⟩
    · exact absurd hnil.symm (List.cons_ne_nil _ _)
    · rw [pairBytes, List.mapM_cons] at hbytes
      obtain ⟨v, hv, hbytes⟩ := Option.bind_eq_some_iff.mp hbytes
      obtain ⟨vs, hvs, hbytes⟩ := Option.bind_eq_some_iff.mp hbytes
      exact ⟨v, vs, hv, ⟨us', hrest, hvs⟩, (Option.some.inj hbytes).symm⟩
  · rintro ⟨v, vs, hv, ⟨us, hrest, hvs⟩, rfl⟩
    refine ⟨(a, b) :: us, reads_cons.mpr (Or.inr ⟨us, rfl, by simp [hv], hrest⟩), ?_⟩
    unfold pairBytes at hvs ⊢
    simp [List.mapM_cons, hv, hvs]

/-- A text that is read to its end has an even number of bytes. -/
theorem ReadsHex.even {cs : List Char} {us : List (Char × Char)} (h : ReadsHex cs us []) :
    (utf8Chars cs).length % 2 = 0 := by
  obtain rfl : cs = us.flatMap fun u => [u.1, u.2] := by simpa using h.text
  have htaken := h.taken
  clear h
  induction us with
  | nil => rfl
  | cons u us ih =>
    obtain ⟨ha, hb⟩ := pairByte_ascii (htaken u (by simp))
    have hrest := ih fun v hv => htaken v (by simp [hv])
    rw [List.flatMap_cons, List.cons_append, List.singleton_append, length_utf8Chars_pair ha hb]
    omega

/-- On a text of an even number of bytes the loop succeeds where it reads pairs up to the end. -/
theorem loop_eq_ok_iff {cs : List Char} {bs : List UInt8} (heven : (utf8Chars cs).length % 2 = 0) :
    hexDecodeEven.loop (utf8Chars cs) = .ok bs ↔ ∃ us, ReadsHex cs us [] ∧ pairBytes us = some bs := by
  induction cs using hexBytes.induct generalizing bs with
  | case1 => simp [hexDecodeEven.loop, reads_nil, pairBytes, eq_comm]
  | case2 c =>
    refine iff_of_false (fun hok => ?_) (by simp [reads_singleton])
    rcases width_cases c with hc | hc | hc
    · rw [utf8Chars_cons, utf8Chars_nil, List.append_nil, String.length_utf8EncodeChar,
        (utf8Size_eq_one_iff_ascii c).mpr hc] at heven
      exact absurd heven (by decide)
    · rw [loop_two hc] at hok
      exact absurd hok (by simp)
    · rw [loop_three hc] at hok
      exact absurd hok (by simp)
  | case3 a b cs ih =>
    rw [reads_to_end_cons]
    rcases loop_cons_cons a b cs with ⟨v, hab, -, hloop⟩ | ⟨hab, -, hloop⟩ | ⟨hab, -, e, hloop⟩
    · obtain ⟨ha, hb⟩ := pairByte_ascii (a := a) (b := b) (by simp [hab])
      have heven' : (utf8Chars cs).length % 2 = 0 := by
        rw [length_utf8Chars_pair ha hb] at heven
        omega
      simp only [hloop, hab, ← ih heven', Option.some.injEq]
      cases hexDecodeEven.loop (utf8Chars cs) with
      | ok vs => simp [Except.map, eq_comm]
      | error e => simp [Except.map]
    · rw [hloop]
      simp [hab]
    · rw [hloop]
      simp [hab]

/-! ## Hexadecimal texts are those read without a plus sign -/

theorem pairByte_eq_hexPair {a b : Char} {v : UInt8} :
    hexPair a b = some v ↔ pairByte a b = some v ∧ a ≠ '+' := by
  unfold pairByte
  split
  · rename_i hplus
    simp [hplus, hexPair, hexValue_plus]
  · rename_i hplus
    simp [hplus]

theorem hexBytes_eq_some_iff {cs : List Char} {bs : List UInt8} : hexBytes cs = some bs ↔
    ∃ us, ReadsHex cs us [] ∧ pairBytes us = some bs ∧ ∀ u ∈ us, u.1 ≠ '+' := by
  induction cs using hexBytes.induct generalizing bs with
  | case1 => simp [hexBytes, reads_nil, pairBytes, eq_comm]
  | case2 c => simp [hexBytes, reads_singleton]
  | case3 a b cs ih =>
    rw [hexBytes]
    constructor
    · intro h
      obtain ⟨v, hv, h⟩ := Option.bind_eq_some_iff.mp h
      obtain ⟨vs, hvs, h⟩ := Option.bind_eq_some_iff.mp h
      obtain rfl := Option.some.inj h
      obtain ⟨hpair, ha⟩ := pairByte_eq_hexPair.mp hv
      obtain ⟨us, hreads, hbytes, hplus⟩ := ih.mp hvs
      refine ⟨(a, b) :: us, reads_cons.mpr (Or.inr ⟨us, rfl, by simp [hpair], hreads⟩), ?_, ?_⟩
      · unfold pairBytes at hbytes ⊢
        simp [List.mapM_cons, hpair, hbytes]
      · exact List.forall_mem_cons.mpr ⟨ha, hplus⟩
    · rintro ⟨us, hreads, hbytes, hplus⟩
      rcases reads_cons.mp hreads with ⟨-, hnil⟩ | ⟨us', rfl, -, hrest⟩
      · exact absurd hnil.symm (List.cons_ne_nil _ _)
      · rw [pairBytes, List.mapM_cons] at hbytes
        obtain ⟨v, hv, hbytes⟩ := Option.bind_eq_some_iff.mp hbytes
        obtain ⟨vs, hvs, hbytes⟩ := Option.bind_eq_some_iff.mp hbytes
        obtain ⟨ha, hplus'⟩ := List.forall_mem_cons.mp hplus
        rw [pairByte_eq_hexPair.mpr ⟨hv, ha⟩, ih.mpr ⟨us', hrest, hvs, hplus'⟩]
        exact hbytes

/-- A trimmed text of an even number of bytes which the loop reads to its end with a plus sign in
some pair, or up to a slice that ends within a character. -/
def Misread (s : String) : Prop :=
  (utf8 (trim s)).length % 2 = 0 ∧ ∃ us rest, ReadsHex (trim s).toList us rest ∧
    ((rest = [] ∧ ∃ u ∈ us, u.1 = '+') ∨ SliceEndsInside rest)

theorem hexDecodeEven_of_even {s : String} (heven : (utf8 (trim s)).length % 2 = 0) :
    hexDecodeEven s = hexDecodeEven.loop (utf8Chars (trim s).toList) := by
  unfold hexDecodeEven
  dsimp only
  rw [if_neg (by omega)]
  rfl

theorem hexDecodeEven_of_odd {s : String} (hodd : (utf8 (trim s)).length % 2 ≠ 0) :
    hexDecodeEven s = .error (.message "hex length must be even") := by
  unfold hexDecodeEven
  dsimp only
  rw [if_pos hodd]

/-- The bytes of a text that the loop reads to its end. -/
theorem ReadsHex.bytes {cs : List Char} {us : List (Char × Char)} (h : ReadsHex cs us []) :
    ∃ bs, pairBytes us = some bs := by
  have htaken := h.taken
  clear h
  unfold pairBytes
  induction us with
  | nil => exact ⟨[], rfl⟩
  | cons u us ih =>
    obtain ⟨v, hv⟩ := Option.isSome_iff_exists.mp (htaken u (by simp))
    obtain ⟨vs, hvs⟩ := ih fun w hw => htaken w (by simp [hw])
    exact ⟨v :: vs, by simp [List.mapM_cons, hv, hvs]⟩

/-- Exactly the hexadecimal texts are decoded, and nothing panics, except on the misread texts; and
hex is decoded to the bytes that it encodes. -/
theorem hexDecodeEven_exact (s : String) (bytes : List UInt8) :
    (((∀ b, hexDecodeEven s = .ok b ↔ hexBytes (trim s).toList = some b) ∧
      hexDecodeEven s ≠ .error .panic) ↔ ¬Misread s) ∧
    hexDecodeEven (hexEncode bytes) = .ok bytes := by
  refine ⟨?_, hexDecodeEven_hexEncode bytes⟩
  by_cases heven : (utf8 (trim s)).length % 2 = 0
  · rw [hexDecodeEven_of_even heven, Ne, loop_panic_iff]
    simp only [loop_eq_ok_iff heven, hexBytes_eq_some_iff]
    constructor
    · rintro ⟨hok, hpanic⟩ ⟨-, us, rest, hreads, ⟨rfl, u, hu, hplus⟩ | hslice⟩
      · obtain ⟨bs, hbytes⟩ := hreads.bytes
        obtain ⟨us', hreads', -, hno⟩ := (hok bs).mp ⟨us, hreads, hbytes⟩
        rw [hreads.unique hreads'] at hu
        exact hno u hu hplus
      · exact hpanic ⟨us, rest, hreads, hslice⟩
    · intro hgood
      refine ⟨fun b => ⟨?_, ?_⟩, ?_⟩
      · rintro ⟨us, hreads, hbytes⟩
        exact ⟨us, hreads, hbytes, fun u hu hplus =>
          hgood ⟨heven, us, [], hreads, Or.inl ⟨rfl, u, hu, hplus⟩⟩⟩
      · rintro ⟨us, hreads, hbytes, -⟩
        exact ⟨us, hreads, hbytes⟩
      · rintro ⟨us, rest, hreads, hslice⟩
        exact hgood ⟨heven, us, rest, hreads, Or.inr hslice⟩
  · rw [hexDecodeEven_of_odd heven]
    refine iff_of_true ⟨fun b => iff_of_false (by simp) fun hbytes => ?_, by simp⟩
      fun h => heven h.1
    obtain ⟨us, hreads, -, -⟩ := hexBytes_eq_some_iff.mp hbytes
    exact heven hreads.even

theorem hexDecodeEven_inexact :
    ¬∀ s : String, (∀ b, hexDecodeEven s = .ok b ↔ hexBytes (trim s).toList = some b) ∧
      hexDecodeEven s ≠ .error .panic := by
  intro h
  have hplus : hexBytes (trim "+f").toList = some [15] := ((h "+f").1 [15]).mp (by decide)
  exact absurd hplus (by decide)

/-- A slice of `a` and the first byte of `é`. -/
example : hexDecodeEven "aéb" = .error .panic := by decide

end NnsVerified.Hull
