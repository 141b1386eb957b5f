import Mathlib.Data.List.DropRight
import NnsVerified.Library.LittleEndian
import NnsVerified.Library.Utf8

/-!
# The Rust standard library

The operations on `u64`, byte slices and strings that the hull uses. A string is its list of
characters; its bytes are their UTF-8 encoding.
-/

namespace NnsVerified.Hull

open NnsVerified.Library

/-- How a call ends without a value: with a panic, or with the text of an error. -/
inductive Failure where
  | panic
  | message (e : String)
  deriving DecidableEq, Repr

/-- `a + b`. An overflow panics in a build with overflow checks and wraps in any other. -/
def addU64 (overflowChecks : Bool) (a b : UInt64) : Except Failure UInt64 :=
  if overflowChecks && decide (2 ^ 64 ≤ a.toNat + b.toNat) then .error .panic else .ok (a + b)

/-- `a - b`, likewise. -/
def subU64 (overflowChecks : Bool) (a b : UInt64) : Except Failure UInt64 :=
  if overflowChecks && decide (a < b) then .error .panic else .ok (a - b)

/-- `u64::saturating_add`. -/
def saturatingAdd (a b : UInt64) : UInt64 :=
  if a.toNat + b.toNat < 2 ^ 64 then a + b else UInt64.ofNat (2 ^ 64 - 1)

/-- `u64::saturating_sub`. -/
def saturatingSub (a b : UInt64) : UInt64 := if b ≤ a then a - b else 0

/-- `u64::saturating_mul`. -/
def saturatingMul (a b : UInt64) : UInt64 :=
  if a.toNat * b.toNat < 2 ^ 64 then a * b else UInt64.ofNat (2 ^ 64 - 1)

/-- The range `a..=b`. -/
def inclusiveRange (a b : UInt64) : List UInt64 :=
  (List.range (b.toNat + 1 - a.toNat)).map fun i => UInt64.ofNat (a.toNat + i)

/-- `u64::to_le_bytes`. -/
def toLeBytes (n : UInt64) : List UInt8 := leBytes 8 n.toNat

/-- `u64::from_le_bytes`. -/
def fromLeBytes (bs : List UInt8) : UInt64 := UInt64.ofNat (leValue bs)

/-- `char::is_whitespace`, the property `White_Space`. -/
def isWhitespace (c : Char) : Bool :=
  (0x9 ≤ c.toNat && c.toNat ≤ 0xd) || c.toNat = 0x20 || c.toNat = 0x85 || c.toNat = 0xa0 ||
    c.toNat = 0x1680 || (0x2000 ≤ c.toNat && c.toNat ≤ 0x200a) || c.toNat = 0x2028 ||
    c.toNat = 0x2029 || c.toNat = 0x202f || c.toNat = 0x205f || c.toNat = 0x3000

/-- `str::trim`. -/
def trim (s : String) : String :=
  String.ofList ((s.toList.dropWhile isWhitespace).rdropWhile isWhitespace)

/-- `s.trim_end_matches('\0')`. -/
def trimEndNul (s : String) : String := String.ofList (s.toList.rdropWhile fun c => c = '\x00')

/-- `str::starts_with`. -/
def startsWith (s pat : String) : Bool := pat.toList.isPrefixOf s.toList

/-- `str::ends_with`. -/
def endsWith (s pat : String) : Bool := pat.toList.isSuffixOf s.toList

/-- `str::strip_suffix`. -/
def stripSuffix (s pat : String) : Option String :=
  if endsWith s pat then some (String.ofList (s.toList.take (s.toList.length - pat.toList.length)))
  else none

/-- `std::str::from_utf8`. -/
def fromUtf8 (bs : List UInt8) : Option String := String.fromUTF8? ⟨bs.toArray⟩

/-! ## Facts -/

theorem mapError_eq_ok {ε ε' α : Type} {x : Except ε α} {f : ε → ε'} {a : α} :
    x.mapError f = .ok a ↔ x = .ok a := by
  cases x with
  | error e => simp [Except.mapError]
  | ok b => simp [Except.mapError]

theorem toNat_saturatingAdd (a b : UInt64) :
    (saturatingAdd a b).toNat = min (a.toNat + b.toNat) (2 ^ 64 - 1) := by
  unfold saturatingAdd
  split
  · rename_i h
    rw [UInt64.toNat_add, Nat.mod_eq_of_lt h]
    omega
  · rename_i h
    rw [UInt64.toNat_ofNat', Nat.mod_eq_of_lt (by norm_num)]
    omega

theorem toNat_saturatingSub (a b : UInt64) : (saturatingSub a b).toNat = a.toNat - b.toNat := by
  unfold saturatingSub
  split
  · rename_i h
    exact UInt64.toNat_sub_of_le a b h
  · rename_i h
    have hlt : a.toNat < b.toNat := by simpa [UInt64.le_iff_toNat_le] using h
    simp
    omega

theorem toNat_max (a b : UInt64) : (max a b).toNat = max a.toNat b.toNat := by
  show (if a ≤ b then b else a).toNat = _
  split
  · rename_i h
    exact (max_eq_right (UInt64.le_iff_toNat_le.mp h)).symm
  · rename_i h
    have hle : b.toNat ≤ a.toNat := by
      have hlt : b.toNat < a.toNat := by simpa [UInt64.le_iff_toNat_le] using h
      omega
    exact (max_eq_left hle).symm

theorem toNat_min (a b : UInt64) : (min a b).toNat = min a.toNat b.toNat := by
  show (if a ≤ b then a else b).toNat = _
  split
  · rename_i h
    exact (min_eq_left (UInt64.le_iff_toNat_le.mp h)).symm
  · rename_i h
    have hle : b.toNat ≤ a.toNat := by
      have hlt : b.toNat < a.toNat := by simpa [UInt64.le_iff_toNat_le] using h
      omega
    exact (min_eq_right hle).symm

theorem toNat_fromLeBytes {bs : List UInt8} (h : bs.length ≤ 8) :
    (fromLeBytes bs).toNat = leValue bs := by
  have hlt : leValue bs < 256 ^ 8 := leValue_lt h
  unfold fromLeBytes
  rw [UInt64.toNat_ofNat', Nat.mod_eq_of_lt (by norm_num at hlt ⊢; exact hlt)]

theorem toLeBytes_fromLeBytes {bs : List UInt8} (h : bs.length = 8) :
    toLeBytes (fromLeBytes bs) = bs := by
  unfold toLeBytes
  rw [toNat_fromLeBytes (le_of_eq h), leBytes_leValue h]

theorem fromLeBytes_toLeBytes (n : UInt64) : fromLeBytes (toLeBytes n) = n := by
  have hlt : n.toNat < 256 ^ 8 := by
    have := n.toNat_lt
    norm_num
    exact this
  unfold fromLeBytes toLeBytes
  rw [leValue_leBytes, Nat.mod_eq_of_lt hlt, UInt64.ofNat_toNat]

@[simp] theorem length_toLeBytes (n : UInt64) : (toLeBytes n).length = 8 := length_leBytes 8 _

/-- Trimming leaves no whitespace at the ends to trim. -/
theorem trim_trim (s : String) : trim (trim s) = trim s := by
  unfold trim
  rw [String.toList_ofList]
  set l := s.toList.dropWhile isWhitespace with hl
  have hfront : (l.rdropWhile isWhitespace).dropWhile isWhitespace = l.rdropWhile isWhitespace := by
    obtain ⟨rest, hrest⟩ := List.rdropWhile_prefix isWhitespace (l := l)
    cases hcut : l.rdropWhile isWhitespace with
    | nil => rfl
    | cons c cs =>
      have hhead : l = c :: (cs ++ rest) := by rw [← hrest, hcut, List.cons_append]
      have hc : ¬isWhitespace c = true := by
        have hne : l ≠ [] := by simp [hhead]
        have hnot := List.dropWhile_get_zero_not isWhitespace s.toList
          (by rw [← hl]; exact List.length_pos_of_ne_nil hne)
        simpa [← hl, hhead] using hnot
      rw [List.dropWhile_cons_of_neg hc]
  rw [hfront, List.rdropWhile_idempotent]

theorem toByteArray_utf8 (s : String) : (⟨(utf8 s).toArray⟩ : ByteArray) = s.toByteArray := by
  have hencode : (utf8 s).toByteArray = s.toByteArray := String.utf8Encode_toList
  rw [← hencode]
  exact ByteArray.ext List.data_toByteArray.symm

/-- A text is decoded from its bytes, and from no others. -/
theorem fromUtf8_eq_some {bs : List UInt8} {s : String} : fromUtf8 bs = some s ↔ utf8 s = bs := by
  unfold fromUtf8 String.fromUTF8?
  constructor
  · intro h
    split at h
    · rename_i hvalid
      obtain rfl := Option.some.inj h
      have hbytes := congrArg ByteArray.data (toByteArray_utf8 (String.fromUTF8 ⟨bs.toArray⟩ hvalid))
      exact Array.toList_inj.mpr hbytes
    · cases h
  · rintro rfl
    rw [toByteArray_utf8, dif_pos s.isValidUTF8]
    rfl

/-- A text trimmed of its NUL characters does not end in one. -/
theorem getLast_trimEndNul {s : String} (h : (trimEndNul s).toList ≠ []) :
    (trimEndNul s).toList.getLast h ≠ '\x00' := by
  unfold trimEndNul at h ⊢
  simp only [String.toList_ofList] at h ⊢
  simpa using List.rdropWhile_last_not (fun c => decide (c = '\x00')) s.toList h

end NnsVerified.Hull
