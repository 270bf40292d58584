import Chip8.Screen

/-!
The canvas on which a picture is shown. The picture is copied row by row into a fresh texture, whose
rows may be longer than its own, and the texture is put on show as a whole. The canvas can refuse
either, for a reason of its own.
-/

namespace Chip8

namespace Picture

def rowSize : Nat := Screen.width * 3

/-- The bytes of row `y`. -/
def row (picture : Picture) (y : Nat) : List UInt8 :=
  Cells.slice picture (y * rowSize) (y * rowSize + rowSize)

end Picture

/-- A texture that is open for writing, with rows of `pitch` bytes. Every row has room for a row of
a picture, and what lies behind it does not show. -/
structure Texture where
  pitch : Nat
  wide : Picture.rowSize ≤ pitch
  bytes : Vector UInt8 (pitch * Screen.height)

namespace Texture

/-- A texture without anything behind its rows. -/
def plain : Texture where
  pitch := Picture.rowSize
  wide := Nat.le_refl _
  bytes := Vector.replicate _ 0

/-- The bytes once the first rows of a picture are copied, each to the start of its row. -/
def filled (texture : Texture) (picture : Picture) :
    (rows : Nat) → Vector UInt8 (texture.pitch * Screen.height)
  | 0 => texture.bytes
  | y + 1 => Cells.overwrite (texture.filled picture y) (y * texture.pitch) (picture.row y)

def upload (texture : Texture) (picture : Picture) : Texture :=
  { texture with bytes := texture.filled picture Screen.height }

/-- A row for a row of a picture lies inside the texture. -/
theorem row_inside (texture : Texture) {y : Nat} (inside : y < Screen.height) :
    y * texture.pitch + Picture.rowSize ≤ texture.pitch * Screen.height :=
  calc y * texture.pitch + Picture.rowSize
    _ ≤ y * texture.pitch + texture.pitch := Nat.add_le_add_left texture.wide _
    _ = (y + 1) * texture.pitch := (Nat.succ_mul y texture.pitch).symm
    _ ≤ Screen.height * texture.pitch := Nat.mul_le_mul_right _ inside
    _ = texture.pitch * Screen.height := Nat.mul_comm _ _

theorem byte_inside (texture : Texture) (place : Fin 6144) :
    place.val / Picture.rowSize * texture.pitch + place.val % Picture.rowSize <
      texture.pitch * Screen.height := by
  have column : place.val % Picture.rowSize < Picture.rowSize := Nat.mod_lt _ (by decide)
  have row : place.val / Picture.rowSize < Screen.height := by
    simp only [Picture.rowSize, Screen.width, Screen.height]
    omega
  exact Nat.lt_of_lt_of_le (Nat.add_lt_add_left column _) (texture.row_inside row)

/-- The picture that a texture shows: the bytes at the start of every row. -/
def image (texture : Texture) : Picture :=
  Vector.ofFn fun place => texture.bytes.get
    ⟨place.val / Picture.rowSize * texture.pitch + place.val % Picture.rowSize,
      texture.byte_inside place⟩

end Texture

structure Canvas where
  /-- The fresh texture, or why there is none. -/
  texture : Except String Texture
  /-- Whether a texture can be put on show. -/
  copies : Except String Unit

namespace Canvas

def plain : Canvas :=
  ⟨.ok Texture.plain, .ok ()⟩

/-- Shows a picture; the texture on show has it from then on. -/
def render (canvas : Canvas) (picture : Picture) : Except String Texture := do
  let texture ← canvas.texture
  let uploaded := texture.upload picture
  canvas.copies
  return uploaded

end Canvas

end Chip8
