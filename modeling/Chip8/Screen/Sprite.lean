import Chip8.Screen

/-!
Sprites: rows of eight bits that flip the low bit of the cells under their set bits. Both
directions wrap around. A sprite is narrower than the screen and no higher, so no cell is flipped
twice, and drawing is the same as flipping all its cells at once.
-/

namespace Chip8.Screen

/-- The columns of the set bits of a sprite row, the high bit leftmost. -/
def setColumns (row : UInt8) : List Nat :=
  (List.range 8).filter fun column => row.toNat.testBit (7 - column)

/-- The cells under the set bits of a sprite with its corner at column `x` of row `y`. -/
def targets (x : Nat) : (y : Nat) → List UInt8 → List (Fin 2048)
  | _, [] => []
  | y, row :: rest =>
    (setColumns row).map (fun column => cellAt (x + column) y) ++ targets x (y + 1) rest

/-- Flips the low bit of a cell. -/
def flip (screen : Screen) (cell : Fin 2048) : Screen :=
  screen.set cell.val (screen.get cell ^^^ 1)

def draw (screen : Screen) (x y : UInt8) (sprite : List UInt8) : Screen :=
  (targets x.toNat y.toNat sprite).foldl flip screen

/-- Whether a sprite would flip the low bit of some cell back to zero. -/
def collides (screen : Screen) (x y : UInt8) (sprite : List UInt8) : Bool :=
  (targets x.toNat y.toNat sprite).any fun cell => screen.get cell % 2 = 1

theorem mem_setColumns (row : UInt8) (column : Nat) :
    column ∈ setColumns row ↔ column < 8 ∧ row.toNat.testBit (7 - column) = true := by
  simp only [setColumns, List.mem_filter, List.mem_range]

/-- No two places of a sprite wrap onto the same cell. -/
theorem cellAt_inj {x y row column lower further : Nat} (low : row < height) (deep : lower < height)
    (narrow : column < width) (wide : further < width)
    (same : cellAt (x + column) (y + row) = cellAt (x + further) (y + lower)) :
    row = lower ∧ column = further := by
  have places := congrArg Fin.val same
  simp only [cellAt, width, height] at places low deep narrow wide
  omega

/-- Each set bit of a sprite has its target, and there are no others. By induction on the rows. -/
theorem mem_targets_iff {x y : Nat} {sprite : List UInt8} {cell : Fin 2048} :
    cell ∈ targets x y sprite ↔
      ∃ row byte, sprite[row]? = some byte ∧
        ∃ column < 8, byte.toNat.testBit (7 - column) = true ∧
          cellAt (x + column) (y + row) = cell := by
  induction sprite generalizing y with
  | nil => simp [targets]
  | cons first rest ih =>
    -- A row of the rest is one further down in the whole sprite.
    rw [targets, List.mem_append, ih]
    constructor
    · rintro (here | ⟨row, byte, found, column, narrow, set, same⟩)
      · obtain ⟨column, member, same⟩ := List.mem_map.mp here
        obtain ⟨narrow, set⟩ := (mem_setColumns first column).mp member
        exact ⟨0, first, rfl, column, narrow, set, same⟩
      · rw [Nat.add_assoc, Nat.add_comm 1] at same
        exact ⟨row + 1, byte, found, column, narrow, set, same⟩
    · rintro ⟨row, byte, found, column, narrow, set, same⟩
      cases row with
      | zero =>
        cases found
        exact .inl (List.mem_map.mpr
          ⟨column, (mem_setColumns first column).mpr ⟨narrow, set⟩, same⟩)
      | succ row =>
        rw [Nat.add_comm row, ← Nat.add_assoc] at same
        exact .inr ⟨row, byte, found, column, narrow, set, same⟩

/-- A sprite no higher than the screen meets every cell at most once. -/
theorem nodup_targets (x y : Nat) (sprite : List UInt8) (low : sprite.length ≤ height) :
    (targets x y sprite).Nodup := by
  induction sprite generalizing y with
  | nil => simp [targets]
  | cons first rest ih =>
    have lower : rest.length + 1 ≤ height := by simpa using low
    have top : 0 < height := by decide
    have narrow {column : Nat} (set : column ∈ setColumns first) : column < width :=
      Nat.lt_trans ((mem_setColumns first column).mp set).1 (by decide)
    rw [targets, List.nodup_append]
    refine ⟨?_, ih (y + 1) (by omega), ?_⟩
    · have columns : (setColumns first).Nodup := List.nodup_range.filter _
      rw [List.nodup_iff_pairwise_ne] at columns ⊢
      rw [List.pairwise_map]
      refine columns.imp_of_mem ?_
      intro a b ha hb apart same
      exact apart (cellAt_inj (y := y) top top (narrow ha) (narrow hb) same).2
    · rintro cell here other later rfl
      obtain ⟨column, set, rfl⟩ := List.mem_map.mp here
      obtain ⟨row, byte, found, further, wide, -, same⟩ := mem_targets_iff.mp later
      obtain ⟨inside, -⟩ := List.getElem?_eq_some_iff.mp found
      rw [Nat.add_assoc] at same
      have rows :=
        cellAt_inj (y := y) (by omega) top (Nat.lt_trans wide (by decide)) (narrow set) same
      omega

/-- Flipping distinct cells changes each of them once and no other. -/
theorem get_flips (screen : Screen) (cells : List (Fin 2048)) (once : cells.Nodup)
    (cell : Fin 2048) :
    (cells.foldl flip screen).get cell =
      if cells.contains cell then screen.get cell ^^^ 1 else screen.get cell := by
  simp only [List.contains_iff_mem]
  induction cells generalizing screen with
  | nil => simp
  | cons first rest ih =>
    have fresh : first ∉ rest := (List.nodup_cons.mp once).1
    rw [List.foldl_cons, ih (screen.flip first) (List.nodup_cons.mp once).2]
    by_cases here : cell = first
    · subst here
      simp [fresh, flip, Cells.get_eq_getElem]
    · have apart : first.val ≠ cell.val := fun same => here (Fin.ext same.symm)
      simp [here, flip, Cells.get_eq_getElem, Vector.getElem_set_ne _ _ apart]

/-- A sprite flips the cells under its set bits and leaves every other cell as it was. -/
theorem get_draw (screen : Screen) (x y : UInt8) (sprite : List UInt8)
    (low : sprite.length ≤ height) (cell : Fin 2048) :
    (screen.draw x y sprite).get cell =
      if (targets x.toNat y.toNat sprite).contains cell then screen.get cell ^^^ 1
      else screen.get cell :=
  get_flips screen _ (nodup_targets _ _ sprite low) cell

end Chip8.Screen
