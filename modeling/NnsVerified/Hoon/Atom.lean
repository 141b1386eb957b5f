import NnsVerified.Hoon.Noun
import NnsVerified.Library.LittleEndian
import NnsVerified.Library.Utf8

/-!
# Atom arithmetic of the Hoon standard library

The arms of the standard library that the kernel uses on atoms and lists. A bloq `b` is a unit of
`2 ^ b` bits, so bloq 3 is a byte. Only `sub` can crash.
-/

namespace NnsVerified.Hoon

open NnsVerified.Library

/-- `(sub a b)`: crashes on underflow. -/
def sub (a b : Nat) : Eval Nat := if a < b then crash else .ok (a - b)

theorem sub_of_le {a b : Nat} (h : b ≤ a) : sub a b = .ok (a - b) := by
  simp [sub, Nat.not_lt.mpr h]

/-- The number of values of one bloq. -/
def bloqBase (b : Nat) : Nat := 2 ^ 2 ^ b

@[simp] theorem bloqBase_three : bloqBase 3 = 256 := rfl

/-- `(rip b a)`: the bloqs of an atom, least significant first. -/
def rip (b a : Nat) : List Nat := Nat.digits (bloqBase b) a

/-- `(met b a)`: the number of bloqs of an atom. -/
def met (b a : Nat) : Nat := (rip b a).length

/-- `(cut b [off len] a)`: `len` bloqs of an atom from position `off` on. -/
def cut (b off len a : Nat) : Nat := a / bloqBase b ^ off % bloqBase b ^ len

/-- `(cat b x y)`: `y` after the bloqs of `x`. -/
def cat (b x y : Nat) : Nat := x + bloqBase b ^ met b x * y

/-- `(rap b l)`: the concatenation of the atoms of a list, each at its own width. -/
def rap (b : Nat) : List Nat → Nat
  | [] => 0
  | x :: xs => cat b x (rap b xs)

/-- The cord of a text: its UTF-8 bytes, little-endian. -/
def cord (s : String) : Nat := leValue (utf8 s)

/-! ## Bytes of an atom -/

theorem rip_three (a : Nat) : rip 3 a = Nat.digits 256 a := rfl

theorem met_eq_zero_iff (a : Nat) : met 3 a = 0 ↔ a = 0 := by
  rw [met, List.length_eq_zero_iff]
  exact Nat.digits_eq_nil_iff_eq_zero

theorem cut_three (off len a : Nat) :
    cut 3 off len a = Nat.ofDigits 256 (((rip 3 a).drop off).take len) := by
  have hlt : ∀ d ∈ (Nat.digits 256 a).drop off, d < 256 := fun d hd =>
    Nat.digits_lt_base (by norm_num) (List.mem_of_mem_drop hd)
  rw [cut, bloqBase_three, rip_three, Nat.self_div_pow_eq_ofDigits_drop off a (by norm_num),
    Nat.ofDigits_mod_pow_eq_ofDigits_take len (by norm_num) _ hlt]

theorem cut_three_one {a off : Nat} (h : off < met 3 a) : cut 3 off 1 a = (rip 3 a).get ⟨off, h⟩ := by
  rw [cut_three, List.take_one, List.head?_drop, List.getElem?_eq_getElem h]
  simp
  rfl

theorem rip_three_lt {a d : Nat} (h : d ∈ rip 3 a) : d < 256 :=
  Nat.digits_lt_base (by norm_num) h

/-- Bytes are concatenated without the zeros among them, since a zero has no width of its own. -/
theorem rap_three {l : List Nat} (hl : ∀ d ∈ l, d < 256) :
    rap 3 l = Nat.ofDigits 256 (l.filter fun d => d ≠ 0) := by
  induction l with
  | nil => rfl
  | cons d ds ih =>
    have hds := ih fun x hx => hl x (List.mem_cons_of_mem _ hx)
    by_cases h0 : d = 0
    · subst h0
      rw [List.filter_cons_of_neg (by simp), ← hds, rap, cat]
      simp [met, rip]
    · have hmet : met 3 d = 1 := by
        rw [met, rip_three, Nat.digits_of_lt 256 d h0 (hl d (by simp))]
        rfl
      rw [List.filter_cons_of_pos (by simpa using h0), Nat.ofDigits_cons, ← hds, rap, cat, hmet]
      rfl

/-- The bytes of the cord of a text that does not end in a NUL character. -/
theorem rip_cord {s : String} (hs : ∀ h : s.toList ≠ [], s.toList.getLast h ≠ '\x00') :
    rip 3 (cord s) = (utf8 s).map UInt8.toNat :=
  digits_leValue fun h => getLast_utf8Chars_ne_zero hs h

/-! ## Tags -/

/-- Where the cords of tags are distinct, the tag of a given cord is found. -/
theorem find_cord {α : Type} {text : α → String} {gs : List α}
    (h : (gs.map fun g => cord (text g)).Nodup) {g : α} (hg : g ∈ gs) :
    gs.find? (fun g' => cord (text g') = cord (text g)) = some g := by
  induction gs with
  | nil => simp at hg
  | cons g' gs ih =>
    rw [List.map_cons, List.nodup_cons] at h
    rcases List.mem_cons.mp hg with rfl | hmem
    · simp
    · have hne : cord (text g') ≠ cord (text g) := fun he =>
        h.1 (List.mem_map.mpr ⟨g, hmem, he.symm⟩)
      rw [List.find?_cons_of_neg (by simpa using hne)]
      exact ih h.2 hmem

end NnsVerified.Hoon
