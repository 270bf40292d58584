/-!
Upper-case hexadecimal text of numbers. A field of fixed width shows the low digits of its number,
so numbers that fit the width have different texts.
-/

namespace Chip8.Hex

def alphabet : Vector Char 16 :=
  #v['0', '1', '2', '3', '4', '5', '6', '7', '8', '9', 'A', 'B', 'C', 'D', 'E', 'F']

def lastDigit (n : Nat) : Char :=
  alphabet[n % 16]

/-- The lowest `width` digits, most significant first. -/
def field : (width : Nat) → Nat → List Char
  | 0, _ => []
  | width + 1, n => field width (n / 16) ++ [lastDigit n]

/-- How many digits a number needs; zero needs one. -/
def length (n : Nat) : Nat :=
  n.log2 / 4 + 1

/-- All digits of a number, with zeros in front up to `width` digits. -/
def padded (width n : Nat) : String :=
  String.ofList (field (max width (length n)) n)

@[simp] theorem length_field (width n : Nat) : (field width n).length = width := by
  induction width generalizing n with
  | zero => rfl
  | succ width ih => simp [field, ih]

theorem lastDigit_inj {n m : Nat} (same : lastDigit n = lastDigit m) : n % 16 = m % 16 := by
  have distinct : ∀ a b : Fin 16, alphabet[a.val] = alphabet[b.val] → a = b := by decide
  have below (k : Nat) : k % 16 < 16 := Nat.mod_lt k (by decide)
  exact Fin.ext_iff.mp (distinct ⟨n % 16, below n⟩ ⟨m % 16, below m⟩ same)

/-- A field shows all of a number but what lies above its digits. -/
theorem field_inj {width n m : Nat} (same : field width n = field width m)
    (above : n >>> (4 * width) = m >>> (4 * width)) : n = m := by
  induction width generalizing n m with
  | zero => exact above
  | succ width ih =>
    obtain ⟨higher, last⟩ := List.append_inj' same rfl
    have rest : n / 16 = m / 16 := by
      refine ih higher ?_
      have split (k : Nat) : (k / 16) >>> (4 * width) = k >>> (4 * (width + 1)) := by
        rw [Nat.mul_succ, Nat.add_comm, Nat.shiftRight_add, Nat.shiftRight_eq_div_pow k 4]
      rw [split, split, above]
    have digit := lastDigit_inj (List.singleton_inj.mp last)
    rw [← Nat.div_add_mod n 16, ← Nat.div_add_mod m 16, rest, digit]

def byte (b : UInt8) : String :=
  String.ofList (field 2 b.toNat)

def word (w : UInt16) : String :=
  String.ofList (field 4 w.toNat)

@[simp] theorem length_byte (b : UInt8) : (byte b).length = 2 := by
  simp [byte]

@[simp] theorem length_word (w : UInt16) : (word w).length = 4 := by
  simp [word]

theorem byte_inj {b d : UInt8} (same : byte b = byte d) : b = d := by
  have above (k : UInt8) : k.toNat >>> 8 = 0 :=
    (Nat.shiftRight_eq_div_pow _ 8).trans (Nat.div_eq_of_lt k.toNat_lt)
  exact UInt8.toNat_inj.mp (field_inj (String.ofList_inj.mp same) ((above b).trans (above d).symm))

theorem word_inj {w u : UInt16} (same : word w = word u) : w = u := by
  have above (k : UInt16) : k.toNat >>> 16 = 0 :=
    (Nat.shiftRight_eq_div_pow _ 16).trans (Nat.div_eq_of_lt k.toNat_lt)
  exact UInt16.toNat_inj.mp (field_inj (String.ofList_inj.mp same) ((above w).trans (above u).symm))

end Chip8.Hex
