import Chip8.Text.Numeral
import Mathlib.Data.List.Induction

/-!
# Numerals and their values

A numeral is a digit, or a numeral with a digit behind it, and may have a plus sign in front. It is
read from the left, and its value grows with every digit; `read?_eq_some_iff` says that reading
finds the value of every numeral below a bound, and of nothing else.
-/

namespace Chip8.Numeral

/-- Digits and their value: each digit is worth ten times the next. -/
inductive Digits : List Char → Nat → Prop
  | one {c : Char} (digit : '0' ≤ c ∧ c ≤ '9') : Digits [c] (c.toNat - '0'.toNat)
  | more {cs : List Char} {value : Nat} (digits : Digits cs value) {c : Char}
      (digit : '0' ≤ c ∧ c ≤ '9') : Digits (cs ++ [c]) (10 * value + (c.toNat - '0'.toNat))

/-- A text is a numeral of this value. Zeros in front do not matter. -/
inductive Denotes (text : String) (value : Nat) : Prop
  | plain (digits : Digits text.toList value)
  | signed {cs : List Char} (sign : text.toList = '+' :: cs) (digits : Digits cs value)

theorem digit?_eq_some_iff (c : Char) (digit : Nat) :
    digit? c = some digit ↔ ('0' ≤ c ∧ c ≤ '9') ∧ c.toNat - '0'.toNat = digit := by
  simp only [digit?, Option.ite_none_right_eq_some, Option.some.injEq]

theorem extend_concat (value : Nat) (cs : List Char) (c : Char) :
    extend value (cs ++ [c]) = (extend value cs).bind fun read =>
      (digit? c).map fun digit => 10 * read + digit := by
  induction cs generalizing value with
  | nil => cases found : digit? c <;> simp [extend, found]
  | cons first rest ih => cases found : digit? first <;> simp [extend, found, ih]

theorem Digits.ne_nil {cs : List Char} {value : Nat} (digits : Digits cs value) : cs ≠ [] := by
  cases digits with
  | one digit => exact List.cons_ne_nil _ _
  | more digits digit => exact List.append_ne_nil_of_right_ne_nil _ (List.cons_ne_nil _ _)

theorem Digits.extend_eq {cs : List Char} {value : Nat} (digits : Digits cs value) :
    extend 0 cs = some value := by
  induction digits with
  | one digit =>
    rw [← List.nil_append [_], extend_concat, (digit?_eq_some_iff _ _).mpr ⟨digit, rfl⟩]
    simp [extend]
  | more digits digit ih =>
    rw [extend_concat, ih, (digit?_eq_some_iff _ _).mpr ⟨digit, rfl⟩]
    rfl

theorem digits_of_extend {cs : List Char} {value : Nat} (filled : cs ≠ [])
    (extended : extend 0 cs = some value) : Digits cs value := by
  induction cs using List.reverseRecOn generalizing value with
  | nil => exact absurd rfl filled
  | append_singleton cs c ih =>
    rw [extend_concat] at extended
    obtain ⟨before, read, extended⟩ := Option.bind_eq_some_iff.mp extended
    obtain ⟨digit, found, rfl⟩ := Option.map_eq_some_iff.mp extended
    obtain ⟨range, rfl⟩ := (digit?_eq_some_iff c digit).mp found
    by_cases first : cs = []
    · -- The first digit has nothing in front of it to be worth ten times as much.
      subst first
      cases read
      rw [Nat.mul_zero, Nat.zero_add]
      exact .one range
    · exact .more (ih first read) range

theorem digits?_eq_some_iff (cs : List Char) (value : Nat) :
    digits? cs = some value ↔ Digits cs value := by
  constructor
  · intro read
    cases cs with
    | nil => cases read
    | cons c rest => exact digits_of_extend (List.cons_ne_nil _ _) read
  · intro digits
    cases cs with
    | nil => exact absurd rfl digits.ne_nil
    | cons c rest => exact digits.extend_eq

/-- A plus sign is no digit, so a text is a numeral in one way at most. -/
theorem digits?_unsigned_eq_some_iff (text : String) (value : Nat) :
    digits? (unsigned text.toList) = some value ↔ Denotes text value := by
  simp only [unsigned]
  split
  next rest sign =>
    rw [digits?_eq_some_iff]
    constructor
    · exact .signed sign
    · rintro (digits | ⟨same, digits⟩)
      · rw [sign] at digits
        cases digits.extend_eq
      · rw [sign, List.cons.injEq] at same
        rw [same.2]
        exact digits
  next plain =>
    rw [digits?_eq_some_iff]
    constructor
    · exact .plain
    · rintro (digits | ⟨sign, digits⟩)
      · exact digits
      · exact absurd sign (plain _)

/-- Reading finds the values of the numerals below a bound. -/
theorem read?_eq_some_iff (bound : Nat) (text : String) (value : Nat) :
    read? bound text = some value ↔ Denotes text value ∧ value < bound := by
  rw [read?, Option.filter_eq_some_iff, digits?_unsigned_eq_some_iff, decide_eq_true_eq]

/-- A numeral has one value. -/
theorem Denotes.unique {text : String} {one other : Nat} (first : Denotes text one)
    (second : Denotes text other) : one = other := by
  rw [← digits?_unsigned_eq_some_iff] at first second
  exact Option.some_inj.mp (first.symm.trans second)

end Chip8.Numeral
