import NnsVerified.Hull.Rust

/-!
# `api.rs`
-/

namespace NnsVerified.Hull

/-- `char::is_ascii_lowercase`. -/
def isAsciiLowercase (c : Char) : Bool := 'a' ≤ c && c ≤ 'z'

/-- `char::is_ascii_digit`. -/
def isAsciiDigit (c : Char) : Bool := '0' ≤ c && c ≤ '9'

/-- `is_valid_name`: lowercase letters and digits, at least one, and then `.nock`. -/
def isValidName (name : String) : Bool :=
  match stripSuffix name ".nock" with
  | none => false
  | some stem => !stem.isEmpty && stem.toList.all fun c => isAsciiLowercase c || isAsciiDigit c

end NnsVerified.Hull
