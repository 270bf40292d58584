/-!
Unsigned decimal numerals: an optional plus sign, then at least one digit. Leading zeros are
allowed; a value beyond the bound is refused.
-/

namespace Chip8.Numeral

/-- The value of one decimal digit, from the ten ASCII digits only. -/
def digit? (c : Char) : Option Nat :=
  if '0' ≤ c ∧ c ≤ '9' then some (c.toNat - '0'.toNat) else none

def extend (value : Nat) : List Char → Option Nat
  | [] => some value
  | c :: rest => do extend (10 * value + (← digit? c)) rest

/-- The value of a run of digits, which must not be empty. -/
def digits? : List Char → Option Nat
  | [] => none
  | cs => extend 0 cs

/-- A sign in front is dropped. -/
def unsigned : List Char → List Char
  | '+' :: rest => rest
  | cs => cs

def read? (bound : Nat) (text : String) : Option Nat :=
  (digits? (unsigned text.toList)).filter (· < bound)

end Chip8.Numeral
