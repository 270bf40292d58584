import Chip8.Font
import Chip8.Screen.Sprite

/-!
The state of a machine. Everything that an instruction can read or write is here, so a copy of the
state is a complete snapshot.
-/

namespace Chip8

structure Machine where
  /-- Sixteen byte registers; the last one receives flags. -/
  registers : Vector UInt8 16
  /-- The register that instructions on memory start from. -/
  index : UInt16
  pc : UInt16
  /-- The next free slot of the stack. -/
  sp : UInt8
  delay : UInt8
  sound : UInt8
  /-- The addresses that calls came from. -/
  stack : Vector UInt16 16
  memory : Memory
  screen : Screen
  redraw : Bool
  pressed : Vector Bool 16
  /-- The register that waits for a key. -/
  awaiting : Option UInt8
  deriving DecidableEq

namespace Machine

def stackSize : Nat := 16

def initial : Machine where
  registers := Vector.replicate 16 0
  index := 0
  pc := Memory.programStart
  sp := 0
  delay := 0
  sound := 0
  stack := Vector.replicate 16 0
  memory := Font.memory
  screen := Screen.blank
  redraw := false
  pressed := Vector.replicate 16 false
  awaiting := none

def next (m : Machine) : Machine :=
  { m with pc := m.pc + 2 }

/-- Moves on, past one more instruction if `condition` holds. -/
def skipIf (m : Machine) (condition : Bool) : Machine :=
  if condition then { m with pc := m.pc + 4 } else m.next

def register (m : Machine) (x : Nibble) : UInt8 :=
  m.registers.get x

def setRegister (m : Machine) (x : Nibble) (value : UInt8) : Machine :=
  { m with registers := m.registers.set x.val value }

/-- The register that is written holds the value, and the others hold what they held before. -/
theorem register_setRegister (m : Machine) (x z : Nibble) (value : UInt8) :
    (m.setRegister x value).register z = if z = x then value else m.register z := by
  simp only [register, setRegister, Cells.get_eq_getElem, Vector.getElem_set, Fin.ext_iff,
    @eq_comm Nat x.val]

def setFlag (m : Machine) (flag : Bool) : Machine :=
  m.setRegister Nibble.last (if flag then 1 else 0)

/-- Both timers count down, and stop at zero. -/
def tick (m : Machine) (count : Nat) : Machine :=
  { m with
    delay := UInt8.ofNat (m.delay.toNat - count)
    sound := UInt8.ofNat (m.sound.toNat - count) }

def sounds (m : Machine) : Bool :=
  0 < m.sound

end Machine

end Chip8
