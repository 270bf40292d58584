/-!
Opcodes: words of two bytes, read as four nibbles. The first nibble names the family; the others
are register numbers, a byte or an address. Every word can be sliced.
-/

namespace Chip8

abbrev Opcode := UInt16

/-- The number of a register or of a keypad key. -/
abbrev Nibble := Fin 16

namespace Nibble

/-- The first register, which an offset jump adds. -/
def first : Nibble := 0

/-- The last register, which receives flags. -/
def last : Nibble := 15

def ofByte (b : UInt8) : Nibble :=
  ⟨b.toNat % 16, Nat.mod_lt _ (by decide)⟩

end Nibble

/-- A place that an opcode can name; it has twelve bits. -/
abbrev Address := Fin 4096

namespace Opcode

/-- The opcode stored as two bytes, the high byte first. -/
def ofBytes (high low : UInt8) : Opcode :=
  UInt16.ofNat (high.toNat * 256 + low.toNat)

/-- The nibble with `places` nibbles below it. -/
def nibble (op : Opcode) (places : Nat) : Nibble :=
  ⟨op.toNat >>> (4 * places) % 16, Nat.mod_lt _ (by decide)⟩

def family (op : Opcode) : Nibble :=
  op.nibble 3

def x (op : Opcode) : Nibble :=
  op.nibble 2

def y (op : Opcode) : Nibble :=
  op.nibble 1

def n (op : Opcode) : Nibble :=
  op.nibble 0

def kk (op : Opcode) : UInt8 :=
  UInt8.ofNat (op.toNat % 256)

def address (op : Opcode) : Address :=
  ⟨op.toNat % 4096, Nat.mod_lt _ (by decide)⟩

def nibbles (op : Opcode) : List Nibble :=
  [op.family, op.x, op.y, op.n]

/-- The last `count` nibbles as a number; four or more are the whole word. -/
def lastNibbles (op : Opcode) : (count : Nat) → Nat
  | 0 => 0
  | 1 => op.toNat % 16
  | 2 => op.toNat % 256
  | 3 => op.toNat % 4096
  | _ => op.toNat

end Opcode

end Chip8
