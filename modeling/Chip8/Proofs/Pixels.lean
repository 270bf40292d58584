import Chip8.Proofs.Redrawing

/-!
# The pixels of a picture

A picture is put together cell by cell: every cell adds three equal bytes, white if the cell is lit
and black if not. Since all cells add as many, the byte at a place belongs to the cell at a third of
it, and the rows of the picture are those of the screen. Only how brightly a cell is lit gets lost,
and a cell of a screen that was drawn has no choice there.

## Main result

`picture_lossless`: the bytes of a picture by row, column and color, and which screens have the same
picture.
-/

namespace Chip8

/-- In a list that is put together from pieces of one length, a place belongs to the piece with its
quotient. By induction on the list: the first piece is passed over, or the place lies inside it. -/
theorem getElem?_flatMap {α β : Type} {piece : α → List β} {size : Nat}
    (even : ∀ a, (piece a).length = size) (list : List α) (place : Nat) {offset : Nat}
    (inside : offset < size) :
    (list.flatMap piece)[size * place + offset]? =
      list[place]?.bind fun a => (piece a)[offset]? := by
  induction list generalizing place with
  | nil => simp
  | cons first rest ih =>
    rw [List.flatMap_cons]
    cases place with
    | zero =>
      rw [Nat.mul_zero, Nat.zero_add, List.getElem?_append_left (by rw [even]; exact inside)]
      rfl
    | succ place =>
      have past : size * (place + 1) + offset = (piece first).length + (size * place + offset) := by
        rw [even, Nat.mul_succ]
        omega
      rw [past, List.getElem?_append_right (Nat.le_add_right _ _), Nat.add_sub_cancel_left,
        List.getElem?_cons_succ]
      exact ih place

namespace Screen

/-- How bright a cell is shown. -/
def shade (cell : UInt8) : UInt8 :=
  if cell = 0 then 0x00 else 0xFF

/-- The red, the green and the blue of a cell. -/
def pixel (cell : UInt8) : List UInt8 :=
  List.replicate 3 (shade cell)

/-- The bytes of a picture as it is put together. -/
def pixels (cells : List UInt8) : List UInt8 :=
  cells.flatMap pixel

theorem length_pixel (cell : UInt8) : (pixel cell).length = 3 :=
  List.length_replicate

theorem length_pixels (cells : List UInt8) : (pixels cells).length = 3 * cells.length := by
  induction cells with
  | nil => rfl
  | cons cell rest ih =>
    rw [pixels, List.flatMap_cons, List.length_append, length_pixel, ← pixels, ih, List.length_cons]
    omega

theorem getElem?_pixels (cells : List UInt8) (place : Nat) {color : Nat} (known : color < 3) :
    (pixels cells)[3 * place + color]? = cells[place]?.map shade := by
  rw [pixels, getElem?_flatMap length_pixel cells place known]
  cases cells[place]? with
  | none => rfl
  | some cell => exact List.getElem?_replicate_of_lt known

/-- A picture is the screen's cells, each made into a pixel. -/
theorem toList_picture (screen : Screen) : screen.picture.toList = pixels screen.toList := by
  apply List.ext_getElem?
  intro place
  have split : place = 3 * (place / 3) + place % 3 := (Nat.div_add_mod place 3).symm
  have third := getElem?_pixels screen.toList (place / 3) (Nat.mod_lt place (by decide))
  rw [← split] at third
  rw [third, Vector.getElem?_toList, Vector.getElem?_toList]
  by_cases inside : place < 6144
  · have cell : place / 3 < 2048 := by omega
    rw [Vector.getElem?_eq_getElem inside, Vector.getElem?_eq_getElem cell]
    simp [picture, shade, Cells.get_eq_getElem]
  · have beyond : ¬ place / 3 < 2048 := by omega
    rw [Vector.getElem?_eq_none (by omega), Vector.getElem?_eq_none (by omega)]
    rfl

/-- Each row of a picture is made from that row of the screen. -/
theorem slice_picture (screen : Screen) {row : Nat} (inside : row < height) :
    Cells.slice screen.picture (192 * row) (192 * row + 192) =
      pixels (Cells.slice screen (64 * row) (64 * row + 64)) := by
  have tall : row < 32 := inside
  have length : screen.toList.length = 2048 := Vector.length_toList
  simp only [Cells.slice, Vector.toList_extract, Nat.add_sub_cancel_left, toList_picture]
  generalize screen.toList = cells at length ⊢
  -- The rows above add three bytes a cell, and so does the row itself.
  have above : (pixels (cells.take (64 * row))).length = 192 * row := by
    rw [length_pixels, List.length_take]
    omega
  have wide : (pixels ((cells.drop (64 * row)).take 64)).length = 192 := by
    rw [length_pixels, List.length_take, List.length_drop]
    omega
  have parts : pixels cells = pixels (cells.take (64 * row)) ++
      (pixels ((cells.drop (64 * row)).take 64) ++
        pixels ((cells.drop (64 * row)).drop 64)) := by
    simp only [pixels, ← List.flatMap_append, List.take_append_drop]
  rw [parts, List.drop_left' above, List.take_left' wide]

theorem shade_eq_iff (cell other : UInt8) : shade cell = shade other ↔ (cell = 0 ↔ other = 0) := by
  unfold shade
  split <;> split <;> simp_all

theorem get_picture (screen : Screen) (cell : Fin 2048) {color : Nat} (known : color < 3) :
    screen.picture[3 * cell.val + color]? = some (shade (screen.get cell)) := by
  rw [← Vector.getElem?_toList, toList_picture, getElem?_pixels _ _ known, Vector.getElem?_toList,
    Vector.getElem?_eq_getElem cell.isLt]
  rfl

/-- A picture tells which cells are lit, and nothing else. -/
theorem picture_eq_iff (screen other : Screen) :
    screen.picture = other.picture ↔
      ∀ cell : Fin 2048, screen.get cell = 0 ↔ other.get cell = 0 := by
  constructor
  · intro same cell
    -- Any one of the three bytes of a cell will do.
    have red : 0 < 3 := by decide
    have shades := screen.get_picture cell red
    rw [same, other.get_picture cell red] at shades
    exact (shade_eq_iff _ _).mp (Option.some.inj shades).symm
  · intro same
    apply Vector.ext
    intro place inside
    simp only [picture, Vector.getElem_ofFn, same]

theorem Binary.eq_of_picture {screen other : Screen} (binary : screen.Binary)
    (binaryToo : other.Binary) (same : screen.picture = other.picture) : screen = other := by
  refine ext_get fun cell => ?_
  have lit := (picture_eq_iff screen other).mp same cell
  rcases binary cell with off | on
  · rw [off, lit.mp off]
  · rcases binaryToo cell with dark | bright
    · exact (lit.mpr dark).trans dark.symm
    · rw [on, bright]

/-- A picture is put together from the cells in order, with 6144 bytes in all. The three bytes of a
cell are found by its row and column, white if the cell is lit and black if not, and cutting the
picture every 192 bytes gives the rows of the screen. Screens have the same picture if and only if
they have the same lit cells, so of zeros and ones there is only one screen to a picture. -/
theorem picture_lossless (screen other : Screen) :
    (screen.picture.toList = pixels screen.toList ∧ (pixels screen.toList).length = 6144) ∧
      (∀ x y color, x < 64 → y < 32 → color < 3 →
        ∃ cell, screen[64 * y + x]? = some cell ∧
          screen.picture[192 * y + 3 * x + color]? = some (if cell = 0 then 0x00 else 0xFF)) ∧
      (∀ y, y < 32 → Cells.slice screen.picture (192 * y) (192 * y + 192) =
        pixels (Cells.slice screen (64 * y) (64 * y + 64))) ∧
      (screen.picture = other.picture ↔
        ∀ cell : Fin 2048, screen.get cell = 0 ↔ other.get cell = 0) ∧
      (screen.Binary → other.Binary → screen.picture = other.picture → screen = other) := by
  have length : (pixels screen.toList).length = 6144 := by
    rw [length_pixels, Vector.length_toList]
  refine ⟨⟨screen.toList_picture, length⟩, ?_, fun y low => screen.slice_picture low,
    screen.picture_eq_iff other, Binary.eq_of_picture⟩
  intro x y color left low known
  have inside : 64 * y + x < 2048 := by omega
  have place : 192 * y + 3 * x + color = 3 * (64 * y + x) + color := by omega
  refine ⟨screen.get ⟨64 * y + x, inside⟩, Vector.getElem?_eq_getElem inside, ?_⟩
  rw [place]
  exact screen.get_picture ⟨64 * y + x, inside⟩ known

/-- The last cell, drawn or flipped, is lit in the last byte; how brightly it is lit cannot be seen.
-/
theorem picture_lossless_last :
    let drawn := Screen.blank.draw 63 31 [0x80]
    let flipped := Screen.blank.flip (cellAt 63 31)
    let bright : Screen := Screen.blank.setIfInBounds 2047 7
    (flipped.picture = bright.picture ∧ flipped ≠ bright) ∧
      bright.picture[192 * 31 + 3 * 63 + 2]? = some 0xFF ∧
      Cells.slice bright.picture (192 * 31) (192 * 31 + 192) =
        pixels (Cells.slice bright (64 * 31) (64 * 31 + 64)) ∧
      drawn.Binary ∧ flipped.Binary ∧ drawn.picture = flipped.picture ∧ drawn = flipped := by
  intro drawn flipped bright
  have dim : flipped[64 * 31 + 63]? = some 1 := by
    simp [flipped, flip, blank, cellAt, height, width, Cells.get_eq_getElem]
  have last : bright[64 * 31 + 63]? = some 7 := by
    simp [bright, blank]
  have apart : flipped ≠ bright := by
    intro same
    rw [same, last] at dim
    cases dim
  have lit (cell : Fin 2048) : flipped.get cell = 0 ↔ bright.get cell = 0 := by
    by_cases here : 2047 = cell.val <;>
      simp [flipped, bright, flip, blank, cellAt, height, width, Cells.get_eq_getElem,
        Vector.getElem_set, here]
  have under : targets 63 31 [0x80] = [cellAt 63 31] := by decide
  have shown : drawn.picture = flipped.picture :=
    congrArg (fun cells => (cells.foldl flip blank).picture) under
  have drawnBinary : drawn.Binary := blank_binary.draw 63 31 [0x80]
  have flippedBinary : flipped.Binary := blank_binary.flip (cellAt 63 31)
  obtain ⟨-, -, -, same, -⟩ := picture_lossless flipped bright
  obtain ⟨-, bytes, rows, -, -⟩ := picture_lossless bright flipped
  obtain ⟨-, -, -, -, equal⟩ := picture_lossless drawn flipped
  obtain ⟨cell, here, byte⟩ := bytes 63 31 2 (by decide) (by decide) (by decide)
  cases here.symm.trans last
  exact ⟨⟨same.mpr lit, apart⟩, byte, rows 31 (by decide), drawnBinary, flippedBinary, shown,
    equal drawnBinary flippedBinary shown⟩

end Screen

end Chip8
