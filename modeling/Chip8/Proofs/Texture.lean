import Chip8.Canvas

/-!
# Pictures in textures

A picture is copied into a texture row by row. The rows of a texture may be longer than those of the
picture, so the copies lie apart; whatever is between them stays, and none reaches beyond the end.

`getElem?_filled` gives every byte after a number of rows. Once all are copied, the texture shows
the picture (`image_upload`), and a canvas shows what it is given or nothing (`image_of_render`).
-/

namespace Chip8

namespace Picture

theorem length_row (picture : Picture) {y : Nat} (inside : y < Screen.height) :
    (picture.row y).length = rowSize := by
  refine Cells.length_slice _ _ _ ?_
  simp only [rowSize, Screen.width, Screen.height] at inside ⊢
  omega

theorem getElem?_row (picture : Picture) (y : Nat) {x : Nat} (inside : x < rowSize) :
    (picture.row y)[x]? = picture[y * rowSize + x]? :=
  Cells.getElem?_slice picture (y * rowSize) inside

end Picture

namespace Texture

/-- A byte in a row that has been copied is that of the picture, and every other byte is as before.
By induction on the rows: the next one lies behind those before it and in front of those after it.
-/
theorem getElem?_filled (texture : Texture) (picture : Picture) (rows : Nat) {y x : Nat}
    (low : y < Screen.height) (left : x < texture.pitch) :
    (texture.filled picture rows)[y * texture.pitch + x]? =
      if y < rows ∧ x < Picture.rowSize then picture[y * Picture.rowSize + x]?
      else texture.bytes[y * texture.pitch + x]? := by
  have inside : y * texture.pitch + x < texture.pitch * Screen.height :=
    calc y * texture.pitch + x
      _ < y * texture.pitch + texture.pitch := Nat.add_lt_add_left left _
      _ = (y + 1) * texture.pitch := (Nat.succ_mul y texture.pitch).symm
      _ ≤ Screen.height * texture.pitch := Nat.mul_le_mul_right _ low
      _ = texture.pitch * Screen.height := Nat.mul_comm _ _
  induction rows with
  | zero => simp [filled]
  | succ next ih =>
    have wide := texture.wide
    rw [filled, Vector.getElem?_eq_getElem inside, Cells.getElem_overwrite]
    rw [Vector.getElem?_eq_getElem inside] at ih
    rcases Nat.lt_trichotomy y next with above | rfl | below
    · -- The copy begins behind this byte.
      have before : (y + 1) * texture.pitch ≤ next * texture.pitch :=
        Nat.mul_le_mul_right _ above
      rw [Nat.succ_mul] at before
      have later : y < next + 1 := by omega
      rw [if_neg (by omega), ih]
      simp only [above, later]
    · -- The copy is that of this row, and only its end is left as it was.
      rw [if_pos (Nat.le_add_right _ _), Nat.add_sub_cancel_left, List.getD_eq_getElem?_getD]
      by_cases shows : x < Picture.rowSize
      · have known : y * Picture.rowSize + x < 6144 := by
          simp only [Picture.rowSize, Screen.width, Screen.height] at shows low ⊢
          omega
        rw [picture.getElem?_row y shows, Vector.getElem?_eq_getElem known]
        simp [shows]
      · have length := picture.length_row low
        rw [List.getElem?_eq_none (by omega), Option.getD_none, ih]
        simp [shows]
    · -- The copy ends in front of this byte, since a row of a picture is no longer than the pitch.
      have after : (next + 1) * texture.pitch ≤ y * texture.pitch :=
        Nat.mul_le_mul_right _ below
      rw [Nat.succ_mul] at after
      have length := picture.length_row (Nat.lt_trans below low)
      have early : ¬ y < next := by omega
      have late : ¬ y < next + 1 := by omega
      rw [if_pos (by omega), List.getD_eq_getElem?_getD, List.getElem?_eq_none (by omega),
        Option.getD_none, ih]
      simp only [early, late]

theorem getElem?_image (texture : Texture) {place : Nat} (inside : place < 6144) :
    texture.image[place]? =
      texture.bytes[place / Picture.rowSize * texture.pitch + place % Picture.rowSize]? := by
  have byte := texture.byte_inside ⟨place, inside⟩
  rw [Vector.getElem?_eq_getElem inside, Vector.getElem?_eq_getElem byte]
  simp only [image, Vector.getElem_ofFn, Cells.get_eq_getElem]

/-- A texture shows the rows that have been copied, and below them what it showed before. -/
theorem getElem?_image_filled (texture : Texture) (picture : Picture) (rows : Nat) {place : Nat}
    (inside : place < 6144) :
    ({ texture with bytes := texture.filled picture rows } : Texture).image[place]? =
      if place / Picture.rowSize < rows then picture[place]? else texture.image[place]? := by
  have low : place / Picture.rowSize < Screen.height := by
    simp only [Picture.rowSize, Screen.width, Screen.height]
    omega
  have column : place % Picture.rowSize < Picture.rowSize := Nat.mod_lt _ (by decide)
  have left := Nat.lt_of_lt_of_le column texture.wide
  rw [getElem?_image _ inside, getElem?_image _ inside]
  dsimp only
  rw [texture.getElem?_filled picture rows low left, Nat.div_add_mod']
  simp only [column, and_true]

/-- Whatever its pitch and whatever it held, a texture shows the picture that is copied into it. -/
theorem image_upload (texture : Texture) (picture : Picture) :
    (texture.upload picture).image = picture := by
  apply Vector.ext
  intro place inside
  have low : place / Picture.rowSize < Screen.height := by
    simp only [Picture.rowSize, Screen.width, Screen.height]
    omega
  have shown := texture.getElem?_image_filled picture Screen.height inside
  rw [if_pos low, Vector.getElem?_eq_getElem inside, Vector.getElem?_eq_getElem inside] at shown
  unfold upload
  exact Option.some.inj shown

end Texture

namespace Canvas

/-- Why a canvas shows no picture, if it shows none. -/
def refusal? (canvas : Canvas) : Option String :=
  match canvas.texture, canvas.copies with
  | .error reason, _ => some reason
  | .ok _, .error reason => some reason
  | .ok _, .ok _ => none

theorem render_eq_error_iff (canvas : Canvas) (picture : Picture) (reason : String) :
    canvas.render picture = .error reason ↔ canvas.refusal? = some reason := by
  obtain ⟨texture, copies⟩ := canvas
  cases texture with
  | error missing => simp [render, refusal?, bind, Except.bind]
  | ok texture => cases copies <;> simp [render, refusal?, bind, Except.bind, pure, Except.pure]

theorem image_of_render {canvas : Canvas} {picture : Picture} {texture : Texture}
    (shown : canvas.render picture = .ok texture) : texture.image = picture := by
  obtain ⟨made, copies⟩ := canvas
  cases made with
  | error missing => cases shown
  | ok fresh =>
    cases copies with
    | error refused => cases shown
    | ok done =>
      cases shown
      exact fresh.image_upload picture

end Canvas

end Chip8
