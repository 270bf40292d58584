import Chip8.Instruction

/-!
Dice: a stream of random bytes with a count of those taken. The stream is not part of any machine,
so taking a step back gives no byte back.
-/

namespace Chip8

/-- An endless stream of bytes, of which the first `rolled` are used up. -/
structure Dice where
  stream : Nat → UInt8
  rolled : Nat

namespace Dice

/-- Fresh dice whose rolls are given; they show zero after the last of them. -/
def ofList (rolls : List UInt8) : Dice :=
  ⟨fun place => rolls.getD place 0, 0⟩

def top (dice : Dice) : UInt8 :=
  dice.stream dice.rolled

def roll (dice : Dice) : Dice :=
  { dice with rolled := dice.rolled + 1 }

/-- An executed instruction takes one byte if it rolls at all. -/
def after (dice : Dice) (executed : Option Instruction) : Dice :=
  if executed.any Instruction.rolls then dice.roll else dice

end Dice

end Chip8
