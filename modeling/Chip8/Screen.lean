import Chip8.Cells

/-!
The screen: a flat row-major buffer of cells, each lit when it is not zero. As a picture every cell
becomes one white or black pixel.
-/

namespace Chip8

/-- The cells of all rows, the top row first. -/
abbrev Screen := Vector UInt8 2048

namespace Screen

def width : Nat := 64

def height : Nat := 32

def size : Nat := width * height

def blank : Screen :=
  Vector.replicate 2048 0

/-- The cell in column `x` of row `y`, both wrapped around. -/
def cellAt (x y : Nat) : Fin 2048 :=
  ⟨y % height * width + x % width, by simp only [height, width]; omega⟩

end Screen

/-- The bytes of an image with red, green and blue for each cell, row by row. -/
abbrev Picture := Vector UInt8 6144

def Picture.black : Picture :=
  Vector.replicate 6144 0

/-- Lit cells are white and the others black. -/
def Screen.picture (screen : Screen) : Picture :=
  Vector.ofFn fun place => if screen.get ⟨place.val / 3, by omega⟩ = 0 then 0 else 255

end Chip8
