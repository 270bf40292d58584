import Chip8.Proofs.Procedure.Pieces

/-!
# Drawing bit by bit

A sprite is drawn bit by bit, reading each cell as earlier bits have left it. No two bits of a
sprite fall on the same cell, so every cell is read as it was before, and the loop comes to the
same as flipping all targets at once.
-/

namespace Chip8

namespace Screen

def hit (drawing : UInt8 × Screen) (cell : Fin 2048) : UInt8 × Screen :=
  (drawing.1 ||| (1 &&& drawing.2.get cell), drawing.2.flip cell)

theorem one_and_eq (byte : UInt8) : 1 &&& byte = if byte % 2 = 1 then 1 else 0 := by
  have low : (1 &&& byte).toNat = byte.toNat % 2 := by
    rw [UInt8.toNat_and]
    exact Nat.one_and_eq_mod_two _
  have rest : (byte % 2).toNat = byte.toNat % 2 := UInt8.toNat_mod byte 2
  simp only [← UInt8.toNat_inj, low, rest]
  rcases Nat.mod_two_eq_zero_or_one byte.toNat with even | odd
  · simp [even]
  · simp [odd]

/-- Distinct cells are hit as they were before all of them. -/
theorem foldl_hit (cells : List (Fin 2048)) (once : cells.Nodup) (collision : UInt8)
    (screen : Screen) :
    cells.foldl hit (collision, screen) =
      (collision ||| if cells.any fun cell => screen.get cell % 2 = 1 then 1 else 0,
        cells.foldl flip screen) := by
  induction cells generalizing collision screen with
  | nil => simp
  | cons first rest ih =>
    obtain ⟨fresh, later⟩ := List.nodup_cons.mp once
    -- The cells of the rest are none of those hit so far.
    have kept : ∀ cell ∈ rest, (screen.flip first).get cell = screen.get cell := by
      intro cell member
      have apart : first.val ≠ cell.val := fun same => fresh (Fin.ext same ▸ member)
      simp [flip, Cells.get_eq_getElem, Vector.getElem_set_ne _ _ apart]
    have same : (rest.any fun cell => (screen.flip first).get cell % 2 = 1) =
        rest.any fun cell => screen.get cell % 2 = 1 := by
      rw [Bool.eq_iff_iff, List.any_eq_true, List.any_eq_true]
      exact exists_congr fun cell => and_congr_right fun member => by rw [kept cell member]
    rw [List.foldl_cons, List.foldl_cons, hit, ih later, same, one_and_eq, List.any_cons]
    -- Once there is a collision it stays.
    by_cases lit : screen.get first % 2 = 1
    · rw [if_pos lit, UInt8.or_assoc]
      cases rest.any fun cell => screen.get cell % 2 = 1 <;> simp [lit]
    · simp [lit]

end Screen

/-- The outcome of a piece of drawing. -/
def Store.drawn (s : Store) (drawing : UInt8 × Screen) : EStateM.Result Stop Store UInt8 :=
  .ok drawing.1 { s with machine := { s.machine with screen := drawing.2 } }

namespace Procedure

theorem shiftRight_and_one (row : UInt8) (places : Nat) (narrow : places < 8) :
    row >>> UInt8.ofNat places &&& 1 = if row.toNat.testBit places then 1 else 0 := by
  have low : (row >>> UInt8.ofNat places &&& 1).toNat = 1 &&& row.toNat >>> places := by
    rw [UInt8.toNat_and, UInt8.toNat_shiftRight, UInt8.toNat_ofNat', Nat.and_comm]
    have : places % 2 ^ 8 % 8 = places := by omega
    rw [this]
    rfl
  rw [← UInt8.toNat_inj, low, Nat.testBit]
  rcases Nat.mod_two_eq_zero_or_one (row.toNat >>> places) with even | odd
  · simp [Nat.one_and_eq_mod_two, even]
  · simp [Nat.one_and_eq_mod_two, odd]

theorem run_drawBit {left line bit : Nat} (row collision : UInt8) (narrow : bit < 8)
    (column : left < 256) (inside : line < Screen.height) (s : Store) :
    (drawBit left line row collision bit).run s = s.drawn (
      if row.toNat.testBit (7 - bit) then
        Screen.hit (collision, s.machine.screen) (Screen.cellAt (left + bit) line)
      else
        (collision, s.machine.screen)) := by
  have cell : line * Screen.width + (left + bit) % Screen.width =
      (Screen.cellAt (left + bit) line).val := by
    simp only [Screen.cellAt, Nat.mod_eq_of_lt inside]
  have bound := (Screen.cellAt (left + bit) line).isLt
  simp only [drawBit, EStateM.run_bind, run_fit (lt_size (show left + bit < _ by omega)),
    run_minus (show bit ≤ 7 by omega), run_shift _ _ (show 7 - bit < 8 by omega),
    shiftRight_and_one _ _ (show 7 - bit < 8 by omega), cell,
    run_fit (lt_size (show (Screen.cellAt (left + bit) line).val < _ by omega)), run_machine]
  -- A bit that is not set writes back what it has read.
  cases row.toNat.testBit (7 - bit)
  · simp [Cells.set?, Store.drawn]
  · simp [Cells.set?, Store.drawn, Screen.hit, Screen.flip, Cells.get_eq_getElem]

theorem run_drawBits {left line : Nat} (row collision : UInt8) (bits : List Nat)
    (narrow : ∀ bit ∈ bits, bit < 8) (column : left < 256) (inside : line < Screen.height)
    (s : Store) :
    (bits.foldlM (drawBit left line row) collision).run s = s.drawn (
      ((bits.filter fun bit => row.toNat.testBit (7 - bit)).map fun bit =>
        Screen.cellAt (left + bit) line).foldl Screen.hit (collision, s.machine.screen)) := by
  induction bits generalizing collision s with
  | nil => rfl
  | cons bit rest ih =>
    have later := fun bit member => narrow bit (List.mem_cons_of_mem _ member)
    rw [List.foldlM_cons, EStateM.run_bind,
      run_drawBit row collision (narrow bit List.mem_cons_self) column inside]
    simp only [Store.drawn]
    rw [ih _ later]
    by_cases set : row.toNat.testBit (7 - bit)
    · simp [set, Store.drawn]
    · simp [set, Store.drawn]

theorem run_drawRow {left top : Nat} (collision : UInt8) {place below : Nat} (s : Store)
    (inside : place < 4096) (column : left < 256) (high : top + below < 131072) :
    (drawRow left top collision (place, below)).run s = s.drawn (
      ((Screen.setColumns s.machine.memory[place]).map fun bit =>
        Screen.cellAt (left + bit) (top + below)).foldl Screen.hit
          (collision, s.machine.screen)) := by
  have line : (top + below) % Screen.height < Screen.height := Nat.mod_lt _ (by decide)
  -- Wrapping the row twice is wrapping it once.
  have wrapped : ∀ x, Screen.cellAt x ((top + below) % Screen.height) =
      Screen.cellAt x (top + below) := by
    intro x
    simp [Screen.cellAt]
  simp only [drawRow, EStateM.run_bind, run_machine, Vector.getElem?_eq_getElem inside,
    run_need_some, run_fit (lt_size high)]
  rw [run_drawBits _ _ _ (by simp) column line]
  simp only [wrapped, Screen.setColumns]

/-- The rows of a sprite hit its targets in order. By induction on the number of rows. -/
theorem run_drawRows {left top : Nat} (collision : UInt8) (start count below : Nat) (s : Store)
    (fits : start + count ≤ 4096) (column : left < 256)
    (high : top + below + count < 131072) :
    (((List.range' start count).zipIdx below).foldlM (drawRow left top) collision).run s =
      s.drawn ((Screen.targets left (top + below)
        (Cells.slice s.machine.memory start (start + count))).foldl Screen.hit
          (collision, s.machine.screen)) := by
  induction count generalizing start below collision s with
  | zero =>
    have empty : Cells.slice s.machine.memory start (start + 0) = [] := by
      simp [Cells.slice, Vector.toList_extract]
    rw [empty]
    rfl
  | succ count ih =>
    rw [List.range'_succ, List.zipIdx_cons, List.foldlM_cons, EStateM.run_bind,
      run_drawRow collision s (by omega) column (by omega)]
    simp only [Store.drawn]
    -- The first row is drawn, and memory is still the same for the others.
    rw [ih _ _ _ _ (by omega) (by omega), Cells.slice_succ _ _ _ fits, Screen.targets,
      List.foldl_append]
    simp [Store.drawn, Nat.add_assoc]

/-- A sprite drawn bit by bit is a sprite drawn at once. -/
theorem run_drawRows_zero (left top : UInt8) (start count : Nat) (s : Store)
    (fits : start + count ≤ 4096) (low : count ≤ Screen.height) :
    (drawRows left.toNat top.toNat ⟨start, start + count⟩).run s =
      let sprite := s.machine.memory.read ⟨start, start + count⟩
      s.drawn (if s.machine.screen.collides left top sprite then 1 else 0,
        s.machine.screen.draw left top sprite) := by
  have column := left.toNat_lt
  have line := top.toNat_lt
  have once : (Screen.targets left.toNat top.toNat
      (Cells.slice s.machine.memory start (start + count))).Nodup :=
    Screen.nodup_targets _ _ _ (Nat.le_trans (Nat.le_of_eq (Cells.length_slice _ _ _ fits)) low)
  have small : count ≤ 32 := low
  simp only [drawRows, Nat.add_sub_cancel_left]
  rw [run_drawRows 0 start count 0 s fits column (by omega), Nat.add_zero, Screen.foldl_hit _ once]
  simp [Screen.collides, Screen.draw, Memory.read]

theorem run_draw (x y rows : Nibble) (s : Store) :
    (draw x y rows).run s =
      s.settle ((s.machine.drawSprite x y rows).map fun after => { s with machine := after }) := by
  simp only [draw, Machine.drawSprite, EStateM.run_bind, run_machine,
    run_span _ _ (Nat.le_of_lt rows.isLt)]
  cases found : Span.within s.machine.index (UInt64.ofNat rows.val) with
  | error cause => rfl
  | ok place =>
    obtain ⟨first, rfl, fits⟩ := exists_eq_of_within (Nat.le_of_lt rows.isLt) found
    have low : rows.val ≤ Screen.height := Nat.le_trans (Nat.le_of_lt rows.isLt) (by decide)
    simp only [run_register, run_drawRows_zero _ _ first rows.val _ fits low, Store.drawn,
      run_setFlag, run_change, run_advance]
    rfl

end Procedure

end Chip8
