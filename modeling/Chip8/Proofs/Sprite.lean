import Chip8.Proofs.Outcome
import Chip8.Proofs.Procedure.Agreement
import Chip8.Proofs.Soundness

/-!
# A sprite, cell by cell

A sprite is drawn row by row and bit by bit, with places that wrap around in both directions.
`Drawn` says what comes of it without any order: each bit has a cell of its own, which it is added
to without carry, a set bit on a low bit that is set raises the flag, and nothing else changes but
the program counter and the wish to redraw.

## Main result

`execute_draw`: an opcode that draws a sprite of bytes inside memory leaves such a machine, when it
is executed at once as well as bit by bit.
-/

namespace Chip8

namespace Machine

/-- A bit of the bytes from the index on, the high one leftmost. Beyond memory none is set. -/
def spriteBit (m : Machine) (row column : Nat) : Bool :=
  m.memory[m.index.toNat + row]?.any fun byte => byte.toNat.testBit (7 - column)

/-- The cell that a bit of a sprite falls on. -/
def spriteCell (m : Machine) (x y : Nibble) (row column : Nat) : Fin 2048 :=
  Screen.cellAt ((m.register x).toNat + column) ((m.register y).toNat + row)

/-- A set bit of a sprite falls on a cell. -/
def Covers (m : Machine) (x y rows : Nibble) (cell : Fin 2048) : Prop :=
  ∃ row < rows.val, ∃ column < 8, m.spriteBit row column = true ∧ m.spriteCell x y row column = cell

instance (m : Machine) (x y rows : Nibble) (cell : Fin 2048) : Decidable (m.Covers x y rows cell) :=
  inferInstanceAs (Decidable (∃ row < rows.val, ∃ column < 8, _ ∧ _))

/-- What a sprite leaves: each bit is added to its own cell, and only the flag, the program counter
and the wish to redraw change besides. -/
structure Drawn (m : Machine) (x y rows : Nibble) (after : Machine) : Prop where
  target : ∀ row < rows.val, ∀ column < 8,
    after.screen.get (m.spriteCell x y row column) =
      m.screen.get (m.spriteCell x y row column) ^^^ if m.spriteBit row column then 1 else 0
  beside : ∀ cell, (∀ row < rows.val, ∀ column < 8, m.spriteCell x y row column ≠ cell) →
    after.screen.get cell = m.screen.get cell
  flag : after.register Nibble.last =
    if ∃ cell, m.Covers x y rows cell ∧ m.screen.get cell % 2 = 1 then 1 else 0
  register : ∀ z ≠ Nibble.last, after.register z = m.register z
  rest : after = { m with
    registers := after.registers
    screen := after.screen
    redraw := true
    pc := m.pc + 2 }

/-- An opcode that draws a sprite of bytes inside memory. An empty sprite has none. -/
structure HasSprite (m : Machine) (op : Opcode) : Prop where
  draws : op.family = 0xD
  fits : op.n.val = 0 ∨ m.index.toNat + op.n.val ≤ 4096

/-- The opcode draws its sprite, whatever the dice show. -/
def Draws (m : Machine) (op : Opcode) (after : Machine) : Prop :=
  ∀ random, m.execute random op = .ok (.draw op.x op.y op.n, after)

theorem spriteCell_inj {m : Machine} {x y rows : Nibble} {row column lower further : Nat}
    (low : row < rows.val) (deep : lower < rows.val) (narrow : column < 8) (wide : further < 8)
    (same : m.spriteCell x y row column = m.spriteCell x y lower further) :
    row = lower ∧ column = further := by
  have short := rows.isLt
  refine Screen.cellAt_inj ?_ ?_ ?_ ?_ same <;> simp only [Screen.height, Screen.width] <;> omega

theorem spriteBit_iff (m : Machine) (row column : Nat) :
    m.spriteBit row column = true ↔
      ∃ byte, m.memory[m.index.toNat + row]? = some byte ∧
        byte.toNat.testBit (7 - column) = true :=
  Option.any_eq_true _ _

/-- The targets of a sprite are the cells that it covers. -/
theorem mem_targets_bytesAt (m : Machine) (x y rows : Nibble) (cell : Fin 2048) :
    cell ∈ Screen.targets (m.register x).toNat (m.register y).toNat (m.bytesAt rows.val) ↔
      m.Covers x y rows cell := by
  rw [Screen.mem_targets_iff]
  constructor
  · rintro ⟨row, byte, found, column, narrow, set, same⟩
    obtain ⟨held, -⟩ := List.getElem?_eq_some_iff.mp found
    have inside : row < rows.val := Nat.lt_of_lt_of_le held (m.length_bytesAt_le rows.val)
    rw [m.getElem?_bytesAt inside] at found
    exact ⟨row, inside, column, narrow, (m.spriteBit_iff row column).mpr ⟨byte, found, set⟩, same⟩
  · rintro ⟨row, inside, column, narrow, set, same⟩
    obtain ⟨byte, found, bit⟩ := (m.spriteBit_iff row column).mp set
    rw [← m.getElem?_bytesAt inside] at found
    exact ⟨row, byte, found, column, narrow, bit, same⟩

theorem get_screenAfter_draw (m : Machine) (x y rows : Nibble) (cell : Fin 2048) :
    (m.screenAfter (.draw x y rows)).get cell =
      if m.Covers x y rows cell then m.screen.get cell ^^^ 1 else m.screen.get cell := by
  have low : (m.bytesAt rows.val).length ≤ Screen.height := by
    have short := m.length_bytesAt_le rows.val
    simp only [Screen.height]
    omega
  simp only [screenAfter, Screen.get_draw _ _ _ _ low, List.contains_iff_mem, mem_targets_bytesAt]

theorem collides_iff (m : Machine) (x y rows : Nibble) :
    m.screen.collides (m.register x) (m.register y) (m.bytesAt rows.val) = true ↔
      ∃ cell, m.Covers x y rows cell ∧ m.screen.get cell % 2 = 1 := by
  simp only [Screen.collides, List.any_eq_true, mem_targets_bytesAt, decide_eq_true_eq]

/-- Flipping the targets is adding each bit to its own cell. -/
theorem drawn_outcome (m : Machine) (x y rows : Nibble) (random : UInt8) :
    m.Drawn x y rows (m.outcome random (.draw x y rows)) where
  target := by
    intro row inside column narrow
    rw [outcome, get_screenAfter_draw]
    by_cases set : m.spriteBit row column = true
    · have covered : m.Covers x y rows (m.spriteCell x y row column) :=
        ⟨row, inside, column, narrow, set, rfl⟩
      rw [if_pos covered, if_pos set]
    · -- No other bit falls on the cell of a bit that is not set.
      have bare : ¬ m.Covers x y rows (m.spriteCell x y row column) := by
        rintro ⟨lower, deep, further, wide, other, same⟩
        obtain ⟨rfl, rfl⟩ := spriteCell_inj deep inside wide narrow same
        exact set other
      rw [if_neg bare, if_neg set, UInt8.xor_zero]
  beside := by
    intro cell apart
    rw [outcome, get_screenAfter_draw, if_neg]
    rintro ⟨row, inside, column, narrow, -, same⟩
    exact apart row inside column narrow same
  flag := by
    have flagged : (m.outcome random (.draw x y rows)).register Nibble.last =
        if m.screen.collides (m.register x) (m.register y) (m.bytesAt rows.val) then 1 else 0 :=
      (m.register_setRegister Nibble.last Nibble.last _).trans (if_pos rfl)
    exact flagged.trans (if_congr (m.collides_iff x y rows) rfl rfl)
  register z other := (m.register_setRegister Nibble.last z _).trans (if_neg other)
  rest := rfl

/-- On a cell the sprite adds one or nothing. -/
theorem Drawn.get {m after : Machine} {x y rows : Nibble} (drawn : m.Drawn x y rows after)
    (cell : Fin 2048) :
    after.screen.get cell =
      m.screen.get cell ^^^ if m.Covers x y rows cell then 1 else 0 := by
  by_cases covered : m.Covers x y rows cell
  · rw [if_pos covered]
    obtain ⟨row, inside, column, narrow, set, rfl⟩ := covered
    rw [drawn.target row inside column narrow, if_pos set]
  · -- If any bit falls on the cell, then one that is not set.
    rw [if_neg covered]
    by_cases met : ∃ row < rows.val, ∃ column < 8, m.spriteCell x y row column = cell
    · obtain ⟨row, inside, column, narrow, rfl⟩ := met
      have clear : m.spriteBit row column ≠ true := fun set =>
        covered ⟨row, inside, column, narrow, set, rfl⟩
      rw [drawn.target row inside column narrow, if_neg clear]
    · rw [drawn.beside cell, UInt8.xor_zero]
      exact fun row inside column narrow same => met ⟨row, inside, column, narrow, same⟩

theorem HasSprite.exists_draws {m : Machine} {op : Opcode} (sprite : m.HasSprite op) :
    ∃ after, m.Draws op after ∧ m.Drawn op.x op.y op.n after := by
  refine ⟨m.outcome 0 (.draw op.x op.y op.n), fun random => ?_, m.drawn_outcome _ _ _ 0⟩
  have decoded : op.decode = .ok (.draw op.x op.y op.n) :=
    (op.decode_eq_draw_iff _ _ _).mpr ⟨sprite.draws, rfl, rfl, rfl⟩
  exact (m.execute_eq_ok_iff _ _ _ _).mpr ⟨decoded, (m.missing?_eq_none_iff _).mpr sprite.fits, rfl⟩

/-- On a screen of zeros and ones the flag tells that some cell that was lit has gone out. -/
theorem Drawn.flag_iff_of_binary {m after : Machine} {x y rows : Nibble}
    (drawn : m.Drawn x y rows after) (binary : m.screen.Binary) :
    after.register Nibble.last = 1 ↔
      ∃ cell, m.screen.get cell ≠ 0 ∧ after.screen.get cell = 0 := by
  have gone (cell : Fin 2048) : m.Covers x y rows cell ∧ m.screen.get cell % 2 = 1 ↔
      m.screen.get cell ≠ 0 ∧ after.screen.get cell = 0 := by
    rw [drawn.get cell]
    by_cases covered : m.Covers x y rows cell <;> rcases binary cell with off | on <;> simp [*]
  rw [drawn.flag]
  simp only [gone, ite_eq_left_iff, UInt8.zero_ne_one, imp_false, not_not]

/-- An opcode that draws a sprite adds each bit to the cell that it falls on, wrapped around, and no
two bits fall on the same cell. Its flag is one if a set bit falls on a low bit that is set, and
otherwise zero. This is said of every screen, and of registers as they were before, also where the
flag replaces the place of the sprite. -/
theorem execute_draw (s : Store) {op : Opcode} (sprite : s.machine.HasSprite op) :
    let m := s.machine
    ∃ after,
      m.Draws op after ∧
      (Procedure.execute op).run s = .ok () { s with machine := after } ∧
      m.Drawn op.x op.y op.n after ∧
      (∀ row < op.n.val, ∀ lower < op.n.val, ∀ column < 8, ∀ further < 8,
        m.spriteCell op.x op.y row column = m.spriteCell op.x op.y lower further →
          row = lower ∧ column = further) ∧
      (m.screen.Binary → (after.register Nibble.last = 1 ↔
        ∃ cell, m.screen.get cell ≠ 0 ∧ after.screen.get cell = 0)) := by
  intro m
  obtain ⟨after, draws, drawn⟩ := sprite.exists_draws
  refine ⟨after, draws, ?_, drawn, ?_, drawn.flag_iff_of_binary⟩
  · rw [Procedure.run_execute, draws]
    rfl
  · intro row low lower deep column narrow further wide same
    exact spriteCell_inj low deep narrow wide same

/-- The last register places a sprite in the corner, where it wraps around both ways, puts out the
cell that is lit and leaves the flag in place of the place. -/
theorem execute_draw_corner :
    let m := { initial with
      registers := (Vector.replicate 16 31).set 15 62
      screen := Screen.blank.flip 1984 }
    let s : Store := ⟨⟨m, []⟩, Dice.ofList []⟩
    let op : Opcode := 0xDF02
    m.HasSprite op ∧ m.screen.Binary ∧ m.spriteCell op.x op.y 1 2 = 0 ∧
      ∃ after, (Procedure.execute op).run s = .ok () { s with machine := after } ∧
        op.x = Nibble.last ∧ after.register Nibble.last = 1 ∧
        after.screen.get (m.spriteCell op.x op.y 0 2) = 0 ∧
        ∃ cell, m.screen.get cell ≠ 0 ∧ after.screen.get cell = 0 := by
  intro m s op
  have sprite : m.HasSprite op := ⟨by decide, .inr (by decide)⟩
  have binary : m.screen.Binary := Screen.blank_binary.flip 1984
  have facts : m.spriteBit 0 2 = true ∧ m.screen.get (m.spriteCell op.x op.y 0 2) = 1 ∧
      m.spriteCell op.x op.y 1 2 = 0 := by
    decide +kernel
  obtain ⟨set, lit, wraps⟩ := facts
  obtain ⟨after, -, ran, drawn, -, erases⟩ := execute_draw s sprite
  have target := drawn.target 0 (by decide) 2 (by decide)
  have out : after.screen.get (m.spriteCell op.x op.y 0 2) = 0 := by
    rw [target, if_pos set]
    exact congrArg (· ^^^ 1) lit
  have gone : ∃ cell, m.screen.get cell ≠ 0 ∧ after.screen.get cell = 0 :=
    ⟨_, lit.trans_ne (by decide), out⟩
  exact ⟨sprite, binary, wraps, after, ran, by decide, (erases binary).mpr gone, out, gone⟩

end Machine

end Chip8
