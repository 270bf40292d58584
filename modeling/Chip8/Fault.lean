import Chip8.Opcode
import Chip8.Text.Hex

/-!
What stops an instruction. A fault is found before anything is written, so the machine still
stands as it was when the opcode was fetched.
-/

namespace Chip8

inductive Fault where
  | machineCode (op : Opcode)
  | unmapped (op : Opcode)
  /-- A call finds no free slot, or the stack pointer lies beyond the stack. -/
  | stackOverflow (pc : UInt16)
  | stackUnderflow (pc : UInt16)
  | outOfBounds (address : Nat)
  deriving DecidableEq, Repr

def Fault.message : Fault → String
  | .machineCode op => "opcode 0x" ++ Hex.word op ++ " calls machine code, which is not emulated"
  | .unmapped op => "opcode 0x" ++ Hex.word op ++ " is not a Chip-8 instruction"
  | .stackOverflow pc => "stack overflow calling from pc 0x" ++ Hex.word pc
  | .stackUnderflow pc => "stack underflow returning from pc 0x" ++ Hex.word pc
  | .outOfBounds address => "memory access out of bounds at 0x" ++ Hex.padded 4 address

end Chip8
