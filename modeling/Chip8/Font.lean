import Chip8.Memory

/-!
The font: sixteen glyphs of five rows, one for each hexadecimal digit, stored at the very start of
memory. The glyph of digit `d` therefore lies at `5 * d`.
-/

namespace Chip8.Font

/-- How many rows a glyph has; each row is one byte. -/
def glyphHeight : Nat := 5

def sheet : List UInt8 := [
  0xF0, 0x90, 0x90, 0x90, 0xF0,
  0x20, 0x60, 0x20, 0x20, 0x70,
  0xF0, 0x10, 0xF0, 0x80, 0xF0,
  0xF0, 0x10, 0xF0, 0x10, 0xF0,
  0x90, 0x90, 0xF0, 0x10, 0x10,
  0xF0, 0x80, 0xF0, 0x10, 0xF0,
  0xF0, 0x80, 0xF0, 0x90, 0xF0,
  0xF0, 0x10, 0x20, 0x40, 0x40,
  0xF0, 0x90, 0xF0, 0x90, 0xF0,
  0xF0, 0x90, 0xF0, 0x10, 0xF0,
  0xF0, 0x90, 0xF0, 0x90, 0x90,
  0xE0, 0x90, 0xE0, 0x90, 0xE0,
  0xF0, 0x80, 0x80, 0x80, 0xF0,
  0xE0, 0x90, 0x90, 0x90, 0xE0,
  0xF0, 0x80, 0xF0, 0x80, 0xF0,
  0xF0, 0x80, 0xF0, 0x80, 0x80]

def address (digit : Nibble) : UInt16 :=
  UInt16.ofNat (digit.val * glyphHeight)

def memory : Memory :=
  Cells.overwrite (Vector.replicate 4096 0) 0 sheet

end Chip8.Font
