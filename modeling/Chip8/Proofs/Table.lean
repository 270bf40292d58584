import Chip8.Instruction.Decode
import Mathlib.Data.Fintype.Basic
import Mathlib.Tactic.FinCases

/-!
# The instruction table

The table says for each instruction what the nibbles of its opcodes have to be. `decode_eq_ok_iff`
and `decode_eq_error_iff` say that decoding follows the table: an opcode is accepted if and only if
a row fits it, and it then stands for the instruction of that row. `decode_eq_ok_iff_means` reads
the table from its other side, and says for each instruction what its opcodes look like.
-/

namespace Chip8

/-- A row: the nibbles that an opcode must have, where they are fixed, and what it then means. -/
structure Row where
  first : Option Nibble
  second : Option Nibble
  third : Option Nibble
  fourth : Option Nibble
  meaning : Opcode → Instruction

def Row.Fits (row : Row) (op : Opcode) : Prop :=
  (∀ nibble ∈ row.first, op.family = nibble) ∧ (∀ nibble ∈ row.second, op.x = nibble) ∧
    (∀ nibble ∈ row.third, op.y = nibble) ∧ (∀ nibble ∈ row.fourth, op.n = nibble)

namespace Instruction

-- All nibbles of the table share this proof that there are nibbles.
local instance sixteen_ne_zero : @NeZero Nat Zero.ofOfNat0 16 := ⟨by decide⟩

def table : List Row := [
  ⟨some 0x0, some 0x0, some 0xE, some 0x0, fun _ => .clear⟩,
  ⟨some 0x0, some 0x0, some 0xE, some 0xE, fun _ => .ret⟩,
  ⟨some 0x1, none, none, none, fun op => .jump op.address⟩,
  ⟨some 0x2, none, none, none, fun op => .call op.address⟩,
  ⟨some 0x3, none, none, none, fun op => .skip (.equalsByte op.x op.kk)⟩,
  ⟨some 0x4, none, none, none, fun op => .skip (.differsByte op.x op.kk)⟩,
  ⟨some 0x5, none, none, some 0x0, fun op => .skip (.equals op.x op.y)⟩,
  ⟨some 0x6, none, none, none, fun op => .setByte op.x op.kk⟩,
  ⟨some 0x7, none, none, none, fun op => .addByte op.x op.kk⟩,
  ⟨some 0x8, none, none, some 0x0, fun op => .arithmetic .copy op.x op.y⟩,
  ⟨some 0x8, none, none, some 0x1, fun op => .arithmetic .or op.x op.y⟩,
  ⟨some 0x8, none, none, some 0x2, fun op => .arithmetic .and op.x op.y⟩,
  ⟨some 0x8, none, none, some 0x3, fun op => .arithmetic .xor op.x op.y⟩,
  ⟨some 0x8, none, none, some 0x4, fun op => .arithmetic .add op.x op.y⟩,
  ⟨some 0x8, none, none, some 0x5, fun op => .arithmetic .sub op.x op.y⟩,
  ⟨some 0x8, none, none, some 0x6, fun op => .arithmetic .shiftRight op.x op.y⟩,
  ⟨some 0x8, none, none, some 0x7, fun op => .arithmetic .subFrom op.x op.y⟩,
  ⟨some 0x8, none, none, some 0xE, fun op => .arithmetic .shiftLeft op.x op.y⟩,
  ⟨some 0x9, none, none, some 0x0, fun op => .skip (.differs op.x op.y)⟩,
  ⟨some 0xA, none, none, none, fun op => .setIndex op.address⟩,
  ⟨some 0xB, none, none, none, fun op => .jumpOffset op.address⟩,
  ⟨some 0xC, none, none, none, fun op => .random op.x op.kk⟩,
  ⟨some 0xD, none, none, none, fun op => .draw op.x op.y op.n⟩,
  ⟨some 0xE, none, some 0x9, some 0xE, fun op => .skip (.keyDown op.x)⟩,
  ⟨some 0xE, none, some 0xA, some 0x1, fun op => .skip (.keyUp op.x)⟩,
  ⟨some 0xF, none, some 0x0, some 0x7, fun op => .readDelay op.x⟩,
  ⟨some 0xF, none, some 0x0, some 0xA, fun op => .awaitKey op.x⟩,
  ⟨some 0xF, none, some 0x1, some 0x5, fun op => .setDelay op.x⟩,
  ⟨some 0xF, none, some 0x1, some 0x8, fun op => .setSound op.x⟩,
  ⟨some 0xF, none, some 0x1, some 0xE, fun op => .addIndex op.x⟩,
  ⟨some 0xF, none, some 0x2, some 0x9, fun op => .glyph op.x⟩,
  ⟨some 0xF, none, some 0x3, some 0x3, fun op => .decimal op.x⟩,
  ⟨some 0xF, none, some 0x5, some 0x5, fun op => .save op.x⟩,
  ⟨some 0xF, none, some 0x6, some 0x5, fun op => .restore op.x⟩]

end Instruction

namespace Opcode

theorem kk_eq_iff (op : Opcode) (high low : Nibble) :
    op.kk.toNat = 16 * high.val + low.val ↔ op.y = high ∧ op.n = low := by
  simp only [kk, y, n, nibble, Fin.ext_iff, UInt8.toNat_ofNat', Nat.shiftRight_eq_div_pow]
  omega

theorem eq_iff_nibbles (op word : Opcode) :
    op = word ↔ op.family = word.family ∧ op.x = word.x ∧ op.y = word.y ∧ op.n = word.n := by
  have := op.toNat_lt
  have := word.toNat_lt
  simp only [← UInt16.toNat_inj, family, x, y, n, nibble, Fin.ext_iff, Nat.shiftRight_eq_div_pow]
  omega

end Opcode

namespace Instruction

theorem ofKeyByte?_eq_some_iff (op : Opcode) (instruction : Instruction) :
    ofKeyByte? op.x op.kk = some instruction ↔
      (op.y = 0x9 ∧ op.n = 0xE) ∧ .skip (.keyDown op.x) = instruction ∨
      (op.y = 0xA ∧ op.n = 0x1) ∧ .skip (.keyUp op.x) = instruction := by
  simp only [← op.kk_eq_iff]
  unfold ofKeyByte?
  split <;> simp_all

theorem ofSystemByte?_eq_some_iff (op : Opcode) (instruction : Instruction) :
    ofSystemByte? op.x op.kk = some instruction ↔
      (op.y = 0x0 ∧ op.n = 0x7) ∧ .readDelay op.x = instruction ∨
      (op.y = 0x0 ∧ op.n = 0xA) ∧ .awaitKey op.x = instruction ∨
      (op.y = 0x1 ∧ op.n = 0x5) ∧ .setDelay op.x = instruction ∨
      (op.y = 0x1 ∧ op.n = 0x8) ∧ .setSound op.x = instruction ∨
      (op.y = 0x1 ∧ op.n = 0xE) ∧ .addIndex op.x = instruction ∨
      (op.y = 0x2 ∧ op.n = 0x9) ∧ .glyph op.x = instruction ∨
      (op.y = 0x3 ∧ op.n = 0x3) ∧ .decimal op.x = instruction ∨
      (op.y = 0x5 ∧ op.n = 0x5) ∧ .save op.x = instruction ∨
      (op.y = 0x6 ∧ op.n = 0x5) ∧ .restore op.x = instruction := by
  simp only [← op.kk_eq_iff]
  unfold ofSystemByte?
  split <;> simp_all

theorem ofNibble?_eq_some_iff (n : Nibble) (operation : Arithmetic) :
    Arithmetic.ofNibble? n = some operation ↔
      n = 0x0 ∧ .copy = operation ∨ n = 0x1 ∧ .or = operation ∨ n = 0x2 ∧ .and = operation ∨
      n = 0x3 ∧ .xor = operation ∨ n = 0x4 ∧ .add = operation ∨ n = 0x5 ∧ .sub = operation ∨
      n = 0x6 ∧ .shiftRight = operation ∨ n = 0x7 ∧ .subFrom = operation ∨
      n = 0xE ∧ .shiftLeft = operation := by
  fin_cases n <;> simp [Arithmetic.ofNibble?]

theorem ofFamily?_eq_some_iff (op : Opcode) (instruction : Instruction)
    (outside : op.family.val ≠ 0) :
    ofFamily? op = some instruction ↔
      ∃ row ∈ table, row.Fits op ∧ row.meaning op = instruction := by
  revert outside
  simp only [ofFamily?, Row.Fits, table, List.exists_mem_cons_iff, List.not_mem_nil]
  -- The first nibble is used nowhere but in the choice of the family.
  generalize op.family = family
  fin_cases family <;>
    simp [ofNibble?_eq_some_iff, ofKeyByte?_eq_some_iff, ofSystemByte?_eq_some_iff, or_and_right,
      exists_or]

end Instruction

namespace Opcode

/-- An opcode stands for an instruction if and only if a row that fits it says so. -/
theorem decode_eq_ok_iff (op : Opcode) (instruction : Instruction) :
    op.decode = .ok instruction ↔
      ∃ row ∈ Instruction.table, row.Fits op ∧ row.meaning op = instruction := by
  unfold decode
  split
  next first =>
    have family : op.family = 0 := Fin.ext first
    -- In the first family the whole word decides, so both rows are words.
    have clear : op = 0x00E0 ↔ op.x = 0x0 ∧ op.y = 0xE ∧ op.n = 0x0 :=
      (op.eq_iff_nibbles 0x00E0).trans ⟨And.right, fun rest => ⟨family, rest⟩⟩
    have ret : op = 0x00EE ↔ op.x = 0x0 ∧ op.y = 0xE ∧ op.n = 0xE :=
      (op.eq_iff_nibbles 0x00EE).trans ⟨And.right, fun rest => ⟨family, rest⟩⟩
    simp only [Row.Fits, Instruction.table, List.exists_mem_cons_iff, List.not_mem_nil, family]
    split
    next here => simp [clear.mp here]
    next other =>
      rw [clear] at other
      split
      next here => simp [ret.mp here]
      next neither =>
        rw [ret] at neither
        simp [other, neither]
  next outside =>
    rw [← Instruction.ofFamily?_eq_some_iff op instruction outside]
    split
    next found read => simp [read]
    next missing => simp [missing]

theorem fault_of_decode_eq_error {op : Opcode} {fault : Fault}
    (refused : op.decode = .error fault) :
    fault = if op.family = 0 then .machineCode op else .unmapped op := by
  unfold decode at refused
  split at refused
  next first =>
    have family : op.family = 0 := Fin.ext first
    split at refused
    · cases refused
    · split at refused <;> cases refused
      simp [family]
  next outside =>
    have family : op.family ≠ 0 := fun first => outside (congrArg Fin.val first)
    split at refused <;> cases refused
    simp [family]

/-- An opcode stands for no instruction if and only if no row fits it. -/
theorem decode_eq_error_iff (op : Opcode) (fault : Fault) :
    op.decode = .error fault ↔ (∀ row ∈ Instruction.table, ¬ row.Fits op) ∧
      fault = if op.family = 0 then .machineCode op else .unmapped op := by
  constructor
  · intro refused
    refine ⟨fun row member fits => ?_, fault_of_decode_eq_error refused⟩
    have accepted := (op.decode_eq_ok_iff _).mpr ⟨row, member, fits, rfl⟩
    simp [refused] at accepted
  · rintro ⟨none, rfl⟩
    cases decoded : op.decode with
    | error cause => rw [fault_of_decode_eq_error decoded]
    | ok instruction =>
      obtain ⟨row, member, fits, -⟩ := (op.decode_eq_ok_iff _).mp decoded
      exact absurd fits (none row member)

theorem kk_eq_iff_halves (op : Opcode) (byte : UInt8) :
    op.kk = byte ↔ op.y = Nibble.ofByte (byte / 16) ∧ op.n = Nibble.ofByte byte := by
  have bound := byte.toNat_lt
  have sixteen : (16 : UInt8).toNat = 16 := rfl
  rw [← UInt8.toNat_inj, Fin.ext_iff, Fin.ext_iff]
  simp only [kk, y, n, nibble, Nibble.ofByte, UInt8.toNat_ofNat', Nat.shiftRight_eq_div_pow,
    UInt8.toNat_div, sixteen]
  omega

/-- What the opcodes of an instruction look like. -/
def Means (op : Opcode) : Instruction → Prop
  | .clear => op = 0x00E0
  | .ret => op = 0x00EE
  | .jump target => op.family.val = 0x1 ∧ op.address = target
  | .call target => op.family.val = 0x2 ∧ op.address = target
  | .skip (.equalsByte x kk) => op.family.val = 0x3 ∧ op.x = x ∧ op.kk = kk
  | .skip (.differsByte x kk) => op.family.val = 0x4 ∧ op.x = x ∧ op.kk = kk
  | .skip (.equals x y) => op.family.val = 0x5 ∧ op.n.val = 0x0 ∧ op.x = x ∧ op.y = y
  | .setByte x kk => op.family.val = 0x6 ∧ op.x = x ∧ op.kk = kk
  | .addByte x kk => op.family.val = 0x7 ∧ op.x = x ∧ op.kk = kk
  | .arithmetic operation x y =>
    op.family.val = 0x8 ∧ Arithmetic.ofNibble? op.n = some operation ∧ op.x = x ∧ op.y = y
  | .skip (.differs x y) => op.family.val = 0x9 ∧ op.n.val = 0x0 ∧ op.x = x ∧ op.y = y
  | .setIndex target => op.family.val = 0xA ∧ op.address = target
  | .jumpOffset target => op.family.val = 0xB ∧ op.address = target
  | .random x kk => op.family.val = 0xC ∧ op.x = x ∧ op.kk = kk
  | .draw x y rows => op.family.val = 0xD ∧ op.x = x ∧ op.y = y ∧ op.n = rows
  | .skip (.keyDown x) => op.family.val = 0xE ∧ op.kk = 0x9E ∧ op.x = x
  | .skip (.keyUp x) => op.family.val = 0xE ∧ op.kk = 0xA1 ∧ op.x = x
  | .readDelay x => op.family.val = 0xF ∧ op.kk = 0x07 ∧ op.x = x
  | .awaitKey x => op.family.val = 0xF ∧ op.kk = 0x0A ∧ op.x = x
  | .setDelay x => op.family.val = 0xF ∧ op.kk = 0x15 ∧ op.x = x
  | .setSound x => op.family.val = 0xF ∧ op.kk = 0x18 ∧ op.x = x
  | .addIndex x => op.family.val = 0xF ∧ op.kk = 0x1E ∧ op.x = x
  | .glyph x => op.family.val = 0xF ∧ op.kk = 0x29 ∧ op.x = x
  | .decimal x => op.family.val = 0xF ∧ op.kk = 0x33 ∧ op.x = x
  | .save x => op.family.val = 0xF ∧ op.kk = 0x55 ∧ op.x = x
  | .restore x => op.family.val = 0xF ∧ op.kk = 0x65 ∧ op.x = x

/-- The families in turn: most of them have one instruction, and the others look further. -/
theorem means_of_ofFamily? {op : Opcode} {instruction : Instruction}
    (found : Instruction.ofFamily? op = some instruction) : op.Means instruction := by
  unfold Instruction.ofFamily? at found
  split at found
  case h_1 family | h_2 family | h_10 family | h_11 family =>
    cases found
    exact ⟨family, rfl⟩
  case h_3 family | h_4 family | h_6 family | h_7 family | h_12 family =>
    cases found
    exact ⟨family, rfl, rfl⟩
  case h_5 family | h_9 family =>
    split at found
    next low =>
      cases found
      exact ⟨family, low, rfl, rfl⟩
    next => cases found
  case h_8 family =>
    obtain ⟨operation, low, rfl⟩ := Option.map_eq_some_iff.mp found
    exact ⟨family, low, rfl, rfl⟩
  case h_13 family =>
    cases found
    exact ⟨family, rfl, rfl, rfl⟩
  case h_14 family =>
    -- The last byte was matched by halves; put together they are the byte of the table.
    have rows := (Instruction.ofKeyByte?_eq_some_iff op instruction).mp found
    rcases rows with ⟨low, rfl⟩ | ⟨low, rfl⟩
    all_goals exact ⟨family, (op.kk_eq_iff_halves _).mpr low, rfl⟩
  case h_15 family =>
    have rows := (Instruction.ofSystemByte?_eq_some_iff op instruction).mp found
    rcases rows with ⟨low, rfl⟩ | ⟨low, rfl⟩ | ⟨low, rfl⟩ | ⟨low, rfl⟩ | ⟨low, rfl⟩ | ⟨low, rfl⟩ |
      ⟨low, rfl⟩ | ⟨low, rfl⟩ | ⟨low, rfl⟩
    all_goals exact ⟨family, (op.kk_eq_iff_halves _).mpr low, rfl⟩
  case h_16 => cases found

/-- An opcode stands for an instruction if and only if it looks like one of its opcodes. -/
theorem decode_eq_ok_iff_means (op : Opcode) (instruction : Instruction) :
    op.decode = .ok instruction ↔ op.Means instruction := by
  constructor
  · intro decoded
    unfold decode at decoded
    split at decoded
    next first =>
      split at decoded
      next clear =>
        cases decoded
        exact clear
      next =>
        split at decoded
        next ret =>
          cases decoded
          exact ret
        next => cases decoded
    next outside =>
      split at decoded
      next found =>
        cases decoded
        exact means_of_ofFamily? found
      next => cases decoded
  · intro means
    -- The family and what is looked at after it lead to no other instruction.
    unfold Means at means
    split at means
    case h_1 | h_2 =>
      subst means
      rfl
    all_goals
      simp [decode, Instruction.ofFamily?, Instruction.ofKeyByte?, Instruction.ofSystemByte?, means]

end Opcode

/-- For an instruction whose opcodes differ in a register alone: their family, their low byte and
that register. -/
def Instruction.byte? : Instruction → Option (Nat × UInt8 × Nibble)
  | .skip (.keyDown x) => some (0xE, 0x9E, x)
  | .skip (.keyUp x) => some (0xE, 0xA1, x)
  | .readDelay x => some (0xF, 0x07, x)
  | .awaitKey x => some (0xF, 0x0A, x)
  | .setDelay x => some (0xF, 0x15, x)
  | .setSound x => some (0xF, 0x18, x)
  | .addIndex x => some (0xF, 0x1E, x)
  | .glyph x => some (0xF, 0x29, x)
  | .decimal x => some (0xF, 0x33, x)
  | .save x => some (0xF, 0x55, x)
  | .restore x => some (0xF, 0x65, x)
  | _ => none

theorem Opcode.decode_eq_iff_of_byte {instruction : Instruction} {first : Nibble} {byte : UInt8}
    {x : Nibble} (shared : instruction.byte? = some (first.val, byte, x)) (op : Opcode) :
    op.decode = .ok instruction ↔ (op.family = first ∧ op.kk = byte) ∧ op.x = x := by
  rw [decode_eq_ok_iff_means, Fin.ext_iff, and_assoc]
  generalize first.val = number at shared ⊢
  -- Family, low byte and register are all that the opcodes of these instructions look like.
  unfold Instruction.byte? at shared
  split at shared <;> cases shared <;> rfl

end Chip8
