import Chip8.Arithmetic

/-!
The instructions with their operands. Skips differ only in their condition, so conditions are a
type of their own; the same holds of arithmetic on two registers.
-/

namespace Chip8

inductive Condition where
  | equalsByte (x : Nibble) (kk : UInt8)
  | differsByte (x : Nibble) (kk : UInt8)
  | equals (x y : Nibble)
  | differs (x y : Nibble)
  | keyDown (x : Nibble)
  | keyUp (x : Nibble)
  deriving DecidableEq, Repr

inductive Instruction where
  | clear
  | ret
  | jump (target : Address)
  | call (target : Address)
  | skip (condition : Condition)
  | setByte (x : Nibble) (kk : UInt8)
  | addByte (x : Nibble) (kk : UInt8)
  | arithmetic (operation : Arithmetic) (x y : Nibble)
  | setIndex (target : Address)
  /-- Jumps to an address plus the first register. -/
  | jumpOffset (target : Address)
  | random (x : Nibble) (kk : UInt8)
  /-- Flips a sprite of `rows` bytes onto the screen. -/
  | draw (x y rows : Nibble)
  | readDelay (x : Nibble)
  /-- Waits for a key, whose number goes into the register. -/
  | awaitKey (x : Nibble)
  | setDelay (x : Nibble)
  | setSound (x : Nibble)
  | addIndex (x : Nibble)
  | glyph (x : Nibble)
  | decimal (x : Nibble)
  | save (x : Nibble)
  | restore (x : Nibble)
  deriving DecidableEq, Repr

/-- Whether an instruction takes a random byte. -/
def Instruction.rolls : Instruction → Bool
  | .random _ _ => true
  | _ => false

end Chip8
