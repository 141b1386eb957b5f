import NnsVerified.Hull.Rust

/-!
# Hex

`hex_encode` of `state.rs` and `hex_decode_even` of `wallet_y4.rs`, which undoes it.
-/

namespace NnsVerified.Hull

open NnsVerified.Library

/-- `hex_encode`: two lowercase digits a byte. -/
def hexEncode (bytes : List UInt8) : String :=
  String.ofList (bytes.flatMap fun b =>
    [Nat.digitChar (b.toNat / 16), Nat.digitChar (b.toNat % 16)])

/-- `char::to_digit(16)`, on a byte. -/
def hexDigit (b : UInt8) : Option Nat :=
  if 48 ≤ b && b ≤ 57 then some (b.toNat - 48)
  else if 97 ≤ b && b ≤ 102 then some (b.toNat - 87)
  else if 65 ≤ b && b ≤ 70 then some (b.toNat - 55)
  else none

/-- `u8::from_str_radix(.., 16)`, on two bytes. It takes a plus sign. -/
def fromStrRadix16 (x y : UInt8) : Option UInt8 :=
  if x = 43 then (hexDigit y).map UInt8.ofNat
  else do
    let a ← hexDigit x
    let b ← hexDigit y
    some (UInt8.ofNat (16 * a + b))

/-- A byte in the middle of a character. -/
def isContinuation (b : UInt8) : Bool := 128 ≤ b && b < 192

/-- The loop of `hex_decode_even`, over the bytes of the text. A slice that ends within a character
panics. -/
def hexDecodeEven.loop : List UInt8 → Except Failure (List UInt8)
  | x :: y :: rest =>
    if rest.head?.any isContinuation then .error .panic
    else
      match fromStrRadix16 x y with
      | none => .error (.message "invalid digit found in string")
      | some b => (hexDecodeEven.loop rest).map (b :: ·)
  | _ => .ok []

/-- `hex_decode_even`: the bytes of a trimmed text of hex digits. It stops with a panic where it
cuts a character. -/
def hexDecodeEven (s : String) : Except Failure (List UInt8) :=
  let bytes := utf8 (trim s)
  if bytes.length % 2 ≠ 0 then .error (.message "hex length must be even")
  else hexDecodeEven.loop bytes

/-! ## The round trip -/

/-- The byte of a digit that `hexEncode` writes. -/
def digitByte (d : Nat) : UInt8 := UInt8.ofNat (Nat.digitChar d).toNat

theorem digitByte_spec : ∀ d : Fin 16,
    String.utf8EncodeChar (Nat.digitChar d) = [digitByte d] ∧ hexDigit (digitByte d) = some d.val ∧
      digitByte d ≠ 43 ∧ isContinuation (digitByte d) = false ∧
      isWhitespace (Nat.digitChar d) = false := by
  decide

theorem utf8_hexEncode (bytes : List UInt8) : utf8 (hexEncode bytes)
    = bytes.flatMap fun b => [digitByte (b.toNat / 16), digitByte (b.toNat % 16)] := by
  unfold hexEncode
  rw [utf8, String.toList_ofList]
  induction bytes with
  | nil => rfl
  | cons b bytes ih =>
    have hb := b.toNat_lt
    have hhigh := (digitByte_spec ⟨b.toNat / 16, by omega⟩).1
    have hlow := (digitByte_spec ⟨b.toNat % 16, by omega⟩).1
    dsimp only at hhigh hlow
    rw [List.flatMap_cons, utf8Chars_append, ih, List.flatMap_cons]
    simp only [utf8Chars_cons, utf8Chars_nil, hhigh, hlow, List.append_nil, List.cons_append,
      List.nil_append]

theorem hexDecodeEven_loop_digits (bytes : List UInt8) :
    hexDecodeEven.loop (bytes.flatMap fun b =>
      [digitByte (b.toNat / 16), digitByte (b.toNat % 16)]) = .ok bytes := by
  induction bytes with
  | nil => rfl
  | cons b bytes ih =>
    have hb := b.toNat_lt
    obtain ⟨-, hhigh, hplus, -, -⟩ := digitByte_spec ⟨b.toNat / 16, by omega⟩
    obtain ⟨-, hlow, -, -, -⟩ := digitByte_spec ⟨b.toNat % 16, by omega⟩
    dsimp only at hhigh hplus hlow
    have hbyte : fromStrRadix16 (digitByte (b.toNat / 16)) (digitByte (b.toNat % 16)) = some b := by
      unfold fromStrRadix16
      rw [if_neg hplus, hhigh, hlow]
      show some (UInt8.ofNat (16 * (b.toNat / 16) + b.toNat % 16)) = some b
      rw [Nat.div_add_mod, UInt8.ofNat_toNat]
    have hnext : ((bytes.flatMap fun b =>
        [digitByte (b.toNat / 16), digitByte (b.toNat % 16)]).head?.any isContinuation) = false := by
      cases bytes with
      | nil => rfl
      | cons b' bytes =>
        have hb' := b'.toNat_lt
        exact (digitByte_spec ⟨b'.toNat / 16, by omega⟩).2.2.2.1
    rw [List.flatMap_cons, List.cons_append, List.cons_append, List.nil_append, hexDecodeEven.loop,
      hnext, hbyte, ih]
    rfl

theorem trim_of_forall {s : String} (h : ∀ c ∈ s.toList, isWhitespace c = false) : trim s = s := by
  have hfront : s.toList.dropWhile isWhitespace = s.toList := by
    rw [List.dropWhile_eq_self_iff]
    intro hpos
    simpa using h _ (List.getElem_mem hpos)
  have hback : s.toList.rdropWhile isWhitespace = s.toList := by
    rw [List.rdropWhile_eq_self_iff]
    intro hne
    simpa using h _ (List.getLast_mem hne)
  rw [trim, hfront, hback, String.ofList_toList]

theorem trim_hexEncode (bytes : List UInt8) : trim (hexEncode bytes) = hexEncode bytes := by
  refine trim_of_forall fun c hc => ?_
  rw [hexEncode, String.toList_ofList, List.mem_flatMap] at hc
  obtain ⟨b, -, hc⟩ := hc
  have hb := b.toNat_lt
  rcases List.mem_pair.mp hc with rfl | rfl
  · exact (digitByte_spec ⟨b.toNat / 16, by omega⟩).2.2.2.2
  · exact (digitByte_spec ⟨b.toNat % 16, by omega⟩).2.2.2.2

/-- Hex is decoded to the bytes that it encodes. -/
theorem hexDecodeEven_hexEncode (bytes : List UInt8) : hexDecodeEven (hexEncode bytes) = .ok bytes := by
  have heven : (utf8 (hexEncode bytes)).length = 2 * bytes.length := by
    rw [utf8_hexEncode]
    simp [List.length_flatMap, Nat.mul_comm]
  unfold hexDecodeEven
  rw [trim_hexEncode]
  dsimp only
  rw [heven, if_neg (by simp), utf8_hexEncode, hexDecodeEven_loop_digits]

end NnsVerified.Hull
