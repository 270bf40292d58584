import Chip8.Opcode

/-!
Arithmetic on two registers. Results wrap in eight bits. Five operations also report what the
result lost, as a flag; the other four have no flag to report.
-/

namespace Chip8

/-- An operation on two registers, named by what it leaves in the first. -/
inductive Arithmetic where
  | copy | or | and | xor | add | sub | shiftRight | subFrom | shiftLeft
  deriving DecidableEq, Repr

namespace Arithmetic

def ofNibble? (n : Nibble) : Option Arithmetic :=
  match n.val with
  | 0x0 => some .copy
  | 0x1 => some .or
  | 0x2 => some .and
  | 0x3 => some .xor
  | 0x4 => some .add
  | 0x5 => some .sub
  | 0x6 => some .shiftRight
  | 0x7 => some .subFrom
  | 0xE => some .shiftLeft
  | _ => none

def result (a b : UInt8) : Arithmetic → UInt8
  | .copy => b
  | .or => a ||| b
  | .and => a &&& b
  | .xor => a ^^^ b
  | .add => a + b
  | .sub => a - b
  | .shiftRight => a >>> 1
  | .subFrom => b - a
  | .shiftLeft => a <<< 1

/-- A carry, the absence of a borrow, or the bit shifted out. -/
def flag? (a b : UInt8) : Arithmetic → Option Bool
  | .copy | .or | .and | .xor => none
  | .add => some (256 ≤ a.toNat + b.toNat)
  | .sub => some (b ≤ a)
  | .shiftRight => some (a &&& 1 = 1)
  | .subFrom => some (a ≤ b)
  | .shiftLeft => some (a &&& 0x80 = 0x80)

end Arithmetic

end Chip8
