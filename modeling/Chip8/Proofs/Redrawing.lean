import Chip8.Proofs.Sprite

/-!
# Sprites drawn over sprites

A program erases a sprite by drawing it again, and it draws several in whatever order suits it. Both
work because a cell adds up what falls on it without carry, wherever the sprites overlap or wrap
around. The flag is the only register that drawing writes, so a sprite that is not placed by the
flag falls on the same cells later on.

## Main result

`sprites_cancel_and_commute`: a sprite that is drawn twice leaves the screen as it was, with flags
that tell which of its cells were lit and which were not, and two sprites leave the same screen in
either order.
-/

namespace Chip8

/-- A byte without set bits is zero. -/
theorem byte_eq_zero_of_bits {byte : UInt8}
    (clear : ∀ column < 8, byte.toNat.testBit (7 - column) ≠ true) : byte = 0 := by
  rw [← UInt8.toNat_inj, UInt8.toNat_zero]
  refine Nat.eq_of_testBit_eq fun place => ?_
  rw [Nat.zero_testBit]
  by_cases low : place < 8
  · have bit := clear (7 - place) (by omega)
    rw [Nat.sub_sub_self (Nat.le_of_lt_succ low)] at bit
    exact Bool.not_eq_true _ ▸ bit
  · -- A byte is too small for a bit any higher.
    have high : 2 ^ 8 ≤ 2 ^ place := Nat.pow_le_pow_right Nat.two_pos (Nat.le_of_not_lt low)
    exact Nat.testBit_lt_two_pow (Nat.lt_of_lt_of_le byte.toNat_lt high)

namespace Screen

theorem ext_get {screen other : Screen} (same : ∀ cell, screen.get cell = other.get cell) :
    screen = other :=
  Vector.ext fun place inside => same ⟨place, inside⟩

/-- On a screen of zeros and ones the low bit is the cell. -/
theorem Binary.low_bit {screen : Screen} (binary : screen.Binary) (cell : Fin 2048) :
    (screen.get cell % 2 = 1 ↔ screen.get cell ≠ 0) ∧
      ((screen.get cell ^^^ 1) % 2 = 1 ↔ screen.get cell = 0) := by
  rcases binary cell with off | on
  · rw [off]
    decide
  · rw [on]
    decide

end Screen

namespace Machine

variable {m once : Machine} {x y rows : Nibble}

/-- Nothing that places a sprite changes, unless the flag does. -/
theorem Drawn.covers_iff (drawn : m.Drawn x y rows once) {left top : Nibble}
    (placed : left ≠ Nibble.last ∧ top ≠ Nibble.last) (count : Nibble) (cell : Fin 2048) :
    once.Covers left top count cell ↔ m.Covers left top count cell := by
  have memory : once.memory = m.memory := by rw [drawn.rest]
  have index : once.index = m.index := by rw [drawn.rest]
  simp only [Covers, spriteBit, spriteCell, memory, index, drawn.register left placed.1,
    drawn.register top placed.2]

theorem Drawn.hasSprite (drawn : m.Drawn x y rows once) {op : Opcode} (sprite : m.HasSprite op) :
    once.HasSprite op := by
  have index : once.index = m.index := by rw [drawn.rest]
  exact ⟨sprite.draws, index ▸ sprite.fits⟩

/-- Two sprites add to each cell what each adds alone. -/
theorem Drawn.get_second {left top count : Nibble} {both : Machine}
    (first : m.Drawn x y rows once) (second : once.Drawn left top count both)
    (placed : left ≠ Nibble.last ∧ top ≠ Nibble.last) (cell : Fin 2048) :
    both.screen.get cell =
      (m.screen.get cell ^^^ if m.Covers x y rows cell then 1 else 0) ^^^
        if m.Covers left top count cell then 1 else 0 := by
  simp only [second.get, first.get, first.covers_iff placed]

theorem Drawn.screen_comm {left top count : Nibble} {both other again : Machine}
    (first : m.Drawn x y rows once) (second : once.Drawn left top count both)
    (before : m.Drawn left top count other) (later : other.Drawn x y rows again)
    (placed : x ≠ Nibble.last ∧ y ≠ Nibble.last)
    (elsewhere : left ≠ Nibble.last ∧ top ≠ Nibble.last) :
    both.screen = again.screen := by
  refine Screen.ext_get fun cell => ?_
  rw [first.get_second second elsewhere, before.get_second later placed]
  ac_rfl

section Twice

variable {twice : Machine} (first : m.Drawn x y rows once) (second : once.Drawn x y rows twice)
  (placed : x ≠ Nibble.last ∧ y ≠ Nibble.last)

include first second placed

theorem Drawn.screen_twice : twice.screen = m.screen := by
  refine Screen.ext_get fun cell => ?_
  rw [first.get_second second placed, UInt8.xor_assoc, UInt8.xor_self, UInt8.xor_zero]

/-- The first flag tells of cells that were lit, and the second one of those that were not, since
they are lit by then. -/
theorem Drawn.flags_of_binary (binary : m.screen.Binary) :
    (once.register Nibble.last =
      if ∃ cell, m.Covers x y rows cell ∧ m.screen.get cell ≠ 0 then 1 else 0) ∧
    (twice.register Nibble.last =
      if ∃ cell, m.Covers x y rows cell ∧ m.screen.get cell = 0 then 1 else 0) := by
  have dark (cell : Fin 2048) : once.Covers x y rows cell ∧ once.screen.get cell % 2 = 1 ↔
      m.Covers x y rows cell ∧ m.screen.get cell = 0 := by
    -- A cell that is covered has been flipped by the time it is covered again.
    rw [first.covers_iff placed]
    refine and_congr_right fun covered => ?_
    rw [first.get, if_pos covered]
    exact (binary.low_bit cell).2
  rw [first.flag, second.flag]
  simp only [dark, (binary.low_bit _).1, and_self]

end Twice

/-- A sprite covers no cell if and only if all its bytes are zero. -/
theorem HasSprite.bare_iff {op : Opcode} (sprite : m.HasSprite op) :
    (∀ cell, ¬ m.Covers op.x op.y op.n cell) ↔
      ∀ row < op.n.val, m.memory[m.index.toNat + row]? = some 0 := by
  constructor
  · intro bare row inside
    have held : m.index.toNat + row < 4096 := by
      have fits := sprite.fits
      omega
    rw [Vector.getElem?_eq_getElem held, Option.some_inj]
    refine byte_eq_zero_of_bits fun column narrow set => ?_
    refine bare _ ⟨row, inside, column, narrow, ?_, rfl⟩
    exact (m.spriteBit_iff row column).mpr ⟨_, Vector.getElem?_eq_getElem held, set⟩
  · rintro empty cell ⟨row, inside, column, -, set, -⟩
    obtain ⟨byte, found, bit⟩ := (m.spriteBit_iff row column).mp set
    rw [empty row inside] at found
    cases found
    rw [UInt8.toNat_zero, Nat.zero_testBit] at bit
    cases bit

/-- A sprite that the flag does not place can be drawn twice, which leaves the screen as it was. On
a screen of zeros and ones the two flags tell whether it has met cells that were lit, and cells that
were not, so that both stay down for an empty sprite alone. Two such sprites can be drawn in either
order, which leaves the same screen, whatever the cells hold. -/
theorem sprites_cancel_and_commute (m : Machine) {op : Opcode} (sprite : m.HasSprite op)
    (placed : op.x ≠ Nibble.last ∧ op.y ≠ Nibble.last) :
    (∃ once twice, m.Draws op once ∧ once.Draws op twice ∧
      twice.screen = m.screen ∧
      (m.screen.Binary →
        (once.register Nibble.last =
          if ∃ cell, m.Covers op.x op.y op.n cell ∧ m.screen.get cell ≠ 0 then 1 else 0) ∧
        (twice.register Nibble.last =
          if ∃ cell, m.Covers op.x op.y op.n cell ∧ m.screen.get cell = 0 then 1 else 0) ∧
        (once.register Nibble.last = 0 ∧ twice.register Nibble.last = 0 ↔
          ∀ row < op.n.val, m.memory[m.index.toNat + row]? = some 0))) ∧
    ∀ other, m.HasSprite other → other.x ≠ Nibble.last ∧ other.y ≠ Nibble.last →
      ∃ first both second again, m.Draws op first ∧ first.Draws other both ∧
        m.Draws other second ∧ second.Draws op again ∧
        both.screen = again.screen := by
  obtain ⟨once, draws, drawn⟩ := sprite.exists_draws
  refine ⟨?_, ?_⟩
  · obtain ⟨twice, redraws, redrawn⟩ := (drawn.hasSprite sprite).exists_draws
    refine ⟨once, twice, draws, redraws, drawn.screen_twice redrawn placed, fun binary => ?_⟩
    obtain ⟨lit, unlit⟩ := drawn.flags_of_binary redrawn placed binary
    refine ⟨lit, unlit, ?_⟩
    have one : (1 : UInt8) ≠ 0 := by decide
    simp only [lit, unlit, ← sprite.bare_iff, ite_eq_right_iff, one, imp_false, not_exists, not_and]
    -- A cell that is covered is either lit or not, and raises one of the flags.
    constructor
    · rintro ⟨noneLit, noneUnlit⟩ cell covered
      exact noneLit cell covered (noneUnlit cell covered)
    · exact fun bare => ⟨fun cell covered => absurd covered (bare cell),
        fun cell covered => absurd covered (bare cell)⟩
  · intro other another elsewhere
    obtain ⟨both, adds, added⟩ := (drawn.hasSprite another).exists_draws
    obtain ⟨second, begins, begun⟩ := another.exists_draws
    obtain ⟨again, ends, ended⟩ := (begun.hasSprite sprite).exists_draws
    exact ⟨once, both, second, again, draws, adds, begins, ends,
      drawn.screen_comm added begun ended placed elsewhere⟩

/-- A glyph across the corner of a blank screen, where it wraps around both ways, and four of its
rows one cell higher. -/
theorem sprites_cancel_and_commute_corner :
    let m := { initial with registers := (Vector.replicate 16 31).set 1 62 }
    let glyph : Opcode := 0xD105
    let higher : Opcode := 0xD114
    m.HasSprite glyph ∧ m.HasSprite higher ∧ m.screen.Binary ∧
      (∃ cell, m.Covers glyph.x glyph.y glyph.n cell ∧ m.Covers higher.x higher.y higher.n cell) ∧
      (∃ once twice, m.Draws glyph once ∧ once.Draws glyph twice ∧ twice.screen = m.screen ∧
        once.register Nibble.last = 0 ∧ twice.register Nibble.last = 1) ∧
      ∃ first both second again, m.Draws glyph first ∧ first.Draws higher both ∧
        m.Draws higher second ∧ second.Draws glyph again ∧ both.screen = again.screen := by
  intro m glyph higher
  have sprite : m.HasSprite glyph := ⟨by decide, .inr (by decide)⟩
  have another : m.HasSprite higher := ⟨by decide, .inr (by decide)⟩
  have covered : m.Covers glyph.x glyph.y glyph.n 2046 ∧
      m.Covers higher.x higher.y higher.n 2046 := by
    decide +kernel
  have dark (cell : Fin 2048) : m.screen.get cell = 0 := Vector.getElem_replicate cell.isLt
  obtain ⟨⟨once, twice, draws, redraws, same, flags⟩, swapped⟩ :=
    sprites_cancel_and_commute m sprite (by decide)
  obtain ⟨lit, unlit, -⟩ := flags Screen.blank_binary
  refine ⟨sprite, another, Screen.blank_binary, ⟨2046, covered⟩,
    ⟨once, twice, draws, redraws, same, lit.trans (if_neg ?_), unlit.trans (if_pos ?_)⟩,
    swapped higher another (by decide)⟩
  · rintro ⟨cell, -, shines⟩
    exact shines (dark cell)
  · exact ⟨2046, covered.1, dark 2046⟩

end Machine

end Chip8
