import Mathlib.Data.List.Basic
import Mathlib.Data.List.DropRight
import Mathlib.Data.List.Induction

/-!
# UTF-8

The bytes of a text. Every byte of a character that is not ASCII is at least 128, so ASCII texts are
found in the bytes where they are in the text.
-/

namespace NnsVerified.Library

/-- The bytes of a text in UTF-8. -/
def utf8Chars (cs : List Char) : List UInt8 := cs.flatMap String.utf8EncodeChar

/-- The bytes of a string in UTF-8. -/
def utf8 (s : String) : List UInt8 := utf8Chars s.toList

@[simp] theorem utf8Chars_nil : utf8Chars [] = [] := rfl

@[simp] theorem utf8Chars_cons (c : Char) (cs : List Char) :
    utf8Chars (c :: cs) = String.utf8EncodeChar c ++ utf8Chars cs := rfl

theorem utf8Chars_append (as bs : List Char) :
    utf8Chars (as ++ bs) = utf8Chars as ++ utf8Chars bs := by
  simp [utf8Chars]

theorem utf8Chars_concat (cs : List Char) (c : Char) :
    utf8Chars (cs ++ [c]) = utf8Chars cs ++ String.utf8EncodeChar c := by
  simp [utf8Chars]

/-- A character is its own byte, or a leading byte and as many continuation bytes as its size
asks for. -/
theorem utf8EncodeChar_shape (c : Char) :
    (c.utf8Size = 1 ∧ c.toNat < 128 ∧ String.utf8EncodeChar c = [UInt8.ofNat c.toNat]) ∨
    (2 ≤ c.utf8Size ∧ 128 ≤ c.toNat ∧ ∃ lead rest, String.utf8EncodeChar c = lead :: rest ∧
      192 ≤ lead.toNat ∧ rest.length + 1 = c.utf8Size ∧
      ∀ b ∈ rest, 128 ≤ b.toNat ∧ b.toNat < 192) := by
  have hc : c.val.toNat = c.toNat := rfl
  have hpos := c.utf8Size_pos
  have hlen := String.length_utf8EncodeChar c
  by_cases h1 : c.toNat ≤ 127
  · have hbytes : String.utf8EncodeChar c = [UInt8.ofNat c.toNat] := by
      simp [String.utf8EncodeChar, hc, h1]
    exact Or.inl ⟨by rw [← hlen, hbytes]; rfl, by omega, hbytes⟩
  · refine Or.inr ?_
    simp only [String.utf8EncodeChar, hc, h1, if_false] at hlen ⊢
    by_cases h2 : c.toNat ≤ 2047
    · simp only [h2, if_true, List.length_cons, List.length_nil] at hlen ⊢
      refine ⟨by omega, by omega, _, _, rfl, ?_, by simp; omega, ?_⟩
      · rw [UInt8.toNat_ofNat']
        omega
      · intro b hb
        obtain rfl := List.mem_singleton.mp hb
        rw [UInt8.toNat_ofNat']
        omega
    · by_cases h3 : c.toNat ≤ 65535
      · simp only [h2, h3, if_false, if_true, List.length_cons, List.length_nil] at hlen ⊢
        refine ⟨by omega, by omega, _, _, rfl, ?_, by simp; omega, ?_⟩
        · rw [UInt8.toNat_ofNat']
          omega
        · intro b hb
          rcases List.mem_pair.mp hb with rfl | rfl <;> rw [UInt8.toNat_ofNat'] <;> omega
      · simp only [h2, h3, if_false, List.length_cons, List.length_nil] at hlen ⊢
        refine ⟨by omega, by omega, _, _, rfl, ?_, by simp; omega, ?_⟩
        · rw [UInt8.toNat_ofNat']
          omega
        · intro b hb
          simp only [List.mem_cons, List.not_mem_nil, or_false] at hb
          rcases hb with rfl | rfl | rfl <;> rw [UInt8.toNat_ofNat'] <;> omega

/-- The bytes of one character: the character itself when it is ASCII, and otherwise bytes of
which each is at least 128. -/
theorem utf8EncodeChar_cases (c : Char) :
    (c.toNat < 128 ∧ String.utf8EncodeChar c = [UInt8.ofNat c.toNat]) ∨
    (128 ≤ c.toNat ∧ String.utf8EncodeChar c ≠ [] ∧
      ∀ b ∈ String.utf8EncodeChar c, 128 ≤ b.toNat) := by
  rcases utf8EncodeChar_shape c with ⟨-, hlt, he⟩ | ⟨-, hge, lead, rest, he, hlead, -, hrest⟩
  · exact Or.inl ⟨hlt, he⟩
  · refine Or.inr ⟨hge, String.utf8EncodeChar_ne_nil, fun b hb => ?_⟩
    rw [he] at hb
    rcases List.mem_cons.mp hb with rfl | hb
    · omega
    · exact (hrest b hb).1

/-- A text has at most as many characters as bytes. -/
theorem length_le_length_utf8Chars (cs : List Char) : cs.length ≤ (utf8Chars cs).length := by
  induction cs with
  | nil => exact Nat.zero_le _
  | cons c cs ih =>
    have hpos := List.length_pos_of_ne_nil (String.utf8EncodeChar_ne_nil (c := c))
    rw [utf8Chars_cons, List.length_cons, List.length_append]
    omega

/-- A text whose bytes end in those of an ASCII character ends in that character: the last byte of
every other character is at least 128. -/
theorem concat_of_utf8Chars_suffix {t cs : List Char} {a : Char} (ha : a.toNat < 128)
    (h : utf8Chars (t ++ [a]) <:+ utf8Chars cs) :
    ∃ init, cs = init ++ [a] ∧ utf8Chars t <:+ utf8Chars init := by
  have hbyte : String.utf8EncodeChar a = [UInt8.ofNat a.toNat] := by
    rcases utf8EncodeChar_cases a with ⟨-, he⟩ | ⟨hbig, -, -⟩
    · exact he
    · omega
  have hnat : (UInt8.ofNat a.toNat).toNat = a.toNat := by
    rw [UInt8.toNat_ofNat']
    omega
  rw [utf8Chars_concat, hbyte] at h
  rcases List.eq_nil_or_concat' cs with rfl | ⟨init, b, rfl⟩
  · have hle := h.length_le
    simp at hle
  · rw [utf8Chars_concat] at h
    rcases utf8EncodeChar_cases b with ⟨hb, he⟩ | ⟨-, hne, hbig⟩
    · rw [he] at h
      obtain ⟨front, hfront⟩ := h
      rw [← List.append_assoc] at hfront
      obtain ⟨hinit, hlast⟩ := List.append_inj' hfront rfl
      have hab : a = b := by
        refine Char.toNat_inj.mp ?_
        have hbytes := congrArg UInt8.toNat (List.singleton_inj.mp hlast)
        rw [hnat, UInt8.toNat_ofNat'] at hbytes
        omega
      exact ⟨init, by rw [hab], front, hinit⟩
    · have hlast := h.getLast (by simp)
      rw [List.getLast_append_of_ne_nil _ hne, List.getLast_append_of_ne_nil _ (by simp),
        List.getLast_singleton] at hlast
      have hge := hbig _ (List.getLast_mem hne)
      rw [← hlast, hnat] at hge
      omega

/-- An ASCII text ends a text exactly when its bytes end the bytes. -/
theorem utf8Chars_suffix_iff {t cs : List Char} (ht : ∀ c ∈ t, c.toNat < 128) :
    utf8Chars t <:+ utf8Chars cs ↔ t <:+ cs := by
  constructor
  · intro h
    induction t using List.reverseRecOn generalizing cs with
    | nil => exact List.nil_suffix
    | append_singleton t a ih =>
      obtain ⟨init, rfl, hinit⟩ := concat_of_utf8Chars_suffix (ht a (by simp)) h
      obtain ⟨front, hfront⟩ := ih (fun c hc => ht c (by simp [hc])) hinit
      exact ⟨front, by rw [← hfront, List.append_assoc]⟩
  · rintro ⟨front, rfl⟩
    exact ⟨utf8Chars front, (utf8Chars_append front t).symm⟩

/-- A text that does not end in a NUL character does not end in a zero byte. -/
theorem getLast_utf8Chars_ne_zero {cs : List Char} (hcs : ∀ h : cs ≠ [], cs.getLast h ≠ '\x00')
    (h : utf8Chars cs ≠ []) : (utf8Chars cs).getLast h ≠ 0 := by
  rcases List.eq_nil_or_concat' cs with rfl | ⟨init, c, rfl⟩
  · exact absurd rfl h
  · have hc : c ≠ '\x00' := by simpa using hcs (by simp)
    have hlast : (utf8Chars (init ++ [c])).getLast h
        = (String.utf8EncodeChar c).getLast String.utf8EncodeChar_ne_nil := by
      simp only [utf8Chars_concat]
      exact List.getLast_append_of_ne_nil _ String.utf8EncodeChar_ne_nil
    rw [hlast]
    rcases utf8EncodeChar_cases c with ⟨hlt, he⟩ | ⟨-, hne, hbig⟩
    · simp only [he, List.getLast_singleton]
      intro h0
      refine hc (Char.toNat_inj.mp ?_)
      have := congrArg UInt8.toNat h0
      simp [UInt8.toNat_ofNat'] at this
      have h00 : ('\x00').toNat = 0 := rfl
      omega
    · intro h0
      have := hbig _ (List.getLast_mem hne)
      rw [h0] at this
      simp at this

/-- The zero bytes at the end of a text are its NUL characters at the end. -/
theorem rdropWhile_utf8Chars (cs : List Char) :
    (utf8Chars cs).rdropWhile (fun b => b = 0) = utf8Chars (cs.rdropWhile fun c => c = '\x00') := by
  induction cs using List.reverseRecOn with
  | nil => rfl
  | append_singleton cs c ih =>
    by_cases hc : c = '\x00'
    · have hbyte : String.utf8EncodeChar c = [0] := by rw [hc]; rfl
      rw [List.rdropWhile_concat_pos _ _ _ (by simp [hc]), utf8Chars_concat, hbyte,
        List.rdropWhile_concat_pos _ _ _ (by simp), ih]
    · rw [List.rdropWhile_concat_neg _ _ _ (by simp [hc]), List.rdropWhile_eq_self_iff]
      intro hne
      simpa using getLast_utf8Chars_ne_zero (fun _ => by simpa using hc) hne

end NnsVerified.Library
