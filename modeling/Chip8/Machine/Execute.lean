import Chip8.Instruction.Decode
import Chip8.Machine

/-!
The effect of an instruction. Every check comes before the first change, so a fault carries no
half-changed machine with it. The random byte is handed in; only one instruction looks at it.
-/

namespace Chip8

def Condition.holds (m : Machine) : Condition → Bool
  | .equalsByte x kk => m.register x = kk
  | .differsByte x kk => m.register x ≠ kk
  | .equals x y => m.register x = m.register y
  | .differs x y => m.register x ≠ m.register y
  | .keyDown x => m.pressed.get (Nibble.ofByte (m.register x))
  | .keyUp x => !m.pressed.get (Nibble.ofByte (m.register x))

namespace Machine

/-- The machine after a two-register operation; the flag wins over the result. -/
def calculate (m : Machine) (operation : Arithmetic) (x y : Nibble) : Machine :=
  let a := m.register x
  let b := m.register y
  let written := m.setRegister x (operation.result a b)
  match operation.flag? a b with
  | none => written.next
  | some flag => (written.setFlag flag).next

def enter (m : Machine) (target : Address) : Except Fault Machine :=
  if room : m.sp.toNat < 16 then
    .ok { m with
      stack := m.stack.set m.sp.toNat m.pc
      sp := m.sp + 1
      pc := UInt16.ofNat target.val }
  else
    .error (.stackOverflow m.pc)

/-- Goes back to the call itself, not past it. Beyond the stack there is no caller to go to. -/
def leave (m : Machine) : Except Fault Machine :=
  if m.sp = 0 then
    .error (.stackUnderflow m.pc)
  else if held : m.sp.toNat - 1 < 16 then
    .ok { m with
      sp := m.sp - 1
      pc := m.stack[m.sp.toNat - 1] }
  else
    .error (.stackOverflow m.pc)

def drawSprite (m : Machine) (x y rows : Nibble) : Except Fault Machine := do
  let span ← Span.within m.index (UInt64.ofNat rows.val)
  let sprite := m.memory.read span
  let left := m.register x
  let top := m.register y
  let drawn := { m with screen := m.screen.draw left top sprite, redraw := true }
  return (drawn.setFlag (m.screen.collides left top sprite)).next

/-- Stores the hundreds, tens and units of a register at the index. -/
def storeDecimal (m : Machine) (x : Nibble) : Except Fault Machine := do
  let span ← Span.within m.index 3
  let value := m.register x
  let digits := [value / 100, value / 10 % 10, value % 10]
  return { m with memory := m.memory.write span digits }.next

def saveRegisters (m : Machine) (x : Nibble) : Except Fault Machine := do
  let span ← Span.within m.index (UInt64.ofNat (x.val + 1))
  let bytes := Cells.slice m.registers 0 (x.val + 1)
  return { m with memory := m.memory.write span bytes }.next

def restoreRegisters (m : Machine) (x : Nibble) : Except Fault Machine := do
  let span ← Span.within m.index (UInt64.ofNat (x.val + 1))
  let bytes := m.memory.read span
  return { m with registers := Cells.overwrite m.registers 0 bytes }.next

end Machine

def Instruction.apply (random : UInt8) (m : Machine) : Instruction → Except Fault Machine
  | .clear => .ok { m with screen := Screen.blank, redraw := true }.next
  | .ret => m.leave
  | .jump target => .ok { m with pc := UInt16.ofNat target.val }
  | .call target => m.enter target
  | .skip condition => .ok (m.skipIf (condition.holds m))
  | .setByte x kk => .ok (m.setRegister x kk).next
  | .addByte x kk => .ok (m.setRegister x (m.register x + kk)).next
  | .arithmetic operation x y => .ok (m.calculate operation x y)
  | .setIndex target => .ok { m with index := UInt16.ofNat target.val }.next
  | .jumpOffset target =>
    .ok { m with pc := UInt16.ofNat ((m.register Nibble.first).toNat + target.val) }
  | .random x kk => .ok (m.setRegister x (random &&& kk)).next
  | .draw x y rows => m.drawSprite x y rows
  | .readDelay x => .ok (m.setRegister x m.delay).next
  | .awaitKey x => .ok { m with awaiting := some (UInt8.ofNat x.val) }.next
  | .setDelay x => .ok { m with delay := m.register x }.next
  | .setSound x => .ok { m with sound := m.register x }.next
  | .addIndex x => .ok { m with index := m.index + (m.register x).toUInt16 }.next
  | .glyph x => .ok { m with index := Font.address (Nibble.ofByte (m.register x)) }.next
  | .decimal x => m.storeDecimal x
  | .save x => m.saveRegisters x
  | .restore x => m.restoreRegisters x

def Machine.execute (random : UInt8) (op : Opcode) (m : Machine) :
    Except Fault (Instruction × Machine) := do
  let instruction ← op.decode
  return (instruction, ← instruction.apply random m)

end Chip8
