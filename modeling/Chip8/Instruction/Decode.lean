import Chip8.Fault
import Chip8.Instruction

/-!
Decoding. The first nibble picks the family. Families that share it are told apart by the last
nibble or the low byte; in the first family the whole word decides.
-/

namespace Chip8

namespace Instruction

def ofKeyByte? (x : Nibble) (kk : UInt8) : Option Instruction :=
  match kk.toNat with
  | 0x9E => some (.skip (.keyDown x))
  | 0xA1 => some (.skip (.keyUp x))
  | _ => none

def ofSystemByte? (x : Nibble) (kk : UInt8) : Option Instruction :=
  match kk.toNat with
  | 0x07 => some (.readDelay x)
  | 0x0A => some (.awaitKey x)
  | 0x15 => some (.setDelay x)
  | 0x18 => some (.setSound x)
  | 0x1E => some (.addIndex x)
  | 0x29 => some (.glyph x)
  | 0x33 => some (.decimal x)
  | 0x55 => some (.save x)
  | 0x65 => some (.restore x)
  | _ => none

def ofFamily? (op : Opcode) : Option Instruction :=
  match op.family.val with
  | 0x1 => some (.jump op.address)
  | 0x2 => some (.call op.address)
  | 0x3 => some (.skip (.equalsByte op.x op.kk))
  | 0x4 => some (.skip (.differsByte op.x op.kk))
  | 0x5 => if op.n.val = 0 then some (.skip (.equals op.x op.y)) else none
  | 0x6 => some (.setByte op.x op.kk)
  | 0x7 => some (.addByte op.x op.kk)
  | 0x8 => (Arithmetic.ofNibble? op.n).map (.arithmetic · op.x op.y)
  | 0x9 => if op.n.val = 0 then some (.skip (.differs op.x op.y)) else none
  | 0xA => some (.setIndex op.address)
  | 0xB => some (.jumpOffset op.address)
  | 0xC => some (.random op.x op.kk)
  | 0xD => some (.draw op.x op.y op.n)
  | 0xE => ofKeyByte? op.x op.kk
  | 0xF => ofSystemByte? op.x op.kk
  | _ => none

end Instruction

/-- The instruction of an opcode, or the fault of an opcode without one. -/
def Opcode.decode (op : Opcode) : Except Fault Instruction :=
  if op.family.val = 0 then
    if op = 0x00E0 then .ok .clear
    else if op = 0x00EE then .ok .ret
    else .error (.machineCode op)
  else
    match Instruction.ofFamily? op with
    | some instruction => .ok instruction
    | none => .error (.unmapped op)

end Chip8
