import Chip8.Proofs.Outcome
import Chip8.Proofs.Procedure.Word
import Mathlib.Data.Nat.Bitwise

/-!
# Flags and whole numbers

Bytes wrap around, and the flag of an operation tells what the result has lost. Here the operations
are written once more on whole numbers, where nothing is lost: a sum has a carry above its last
byte, a difference is borrowed for where it is negative, and a shift divides or doubles.

## Main result

`execute_arithmetic`: an opcode with a flag leaves the byte and the flag of the whole numbers, for
any two registers, also where they are the same or one of them receives the flag.
-/

namespace Chip8

/-- What an operation with a flag comes to on whole numbers: the result, and what it reports. -/
def Arithmetic.onIntegers? (n : Nibble) (a b : Int) : Option (Int × Int) :=
  match n.val with
  | 0x4 => some ((a + b) % 256, (a + b) / 256)
  | 0x5 => some ((a - b) % 256, if b ≤ a then 1 else 0)
  | 0x6 => some (a / 2, a % 2)
  | 0x7 => some ((b - a) % 256, if a ≤ b then 1 else 0)
  | 0xE => some (2 * a % 256, a / 128)
  | _ => none

/-! ### Bytes as whole numbers -/

/-- A mask of one bit asks for that bit. -/
theorem and_eq_mask_iff (byte mask : UInt8) (place : Nat) (single : mask.toNat = 1 <<< place) :
    byte &&& mask = mask ↔ byte.toNat.testBit place = true := by
  rw [← UInt8.toNat_inj, UInt8.toNat_and, single, Nat.one_shiftLeft, Nat.and_two_pow]
  have positive : 0 < 2 ^ place := Nat.two_pow_pos place
  cases byte.toNat.testBit place with
  | true => simp
  | false => simp [positive.ne]

theorem toNat_shiftRight_one (byte : UInt8) : (byte >>> 1).toNat = byte.toNat / 2 := by
  rw [UInt8.toNat_shiftRight]
  exact Nat.shiftRight_one byte.toNat

theorem toNat_shiftLeft_one (byte : UInt8) : (byte <<< 1).toNat = 2 * byte.toNat % 256 := by
  rw [UInt8.toNat_shiftLeft, UInt8.toNat_one, Nat.shiftLeft_eq, Nat.mul_comm]

namespace Arithmetic

/-- Each operation in turn: the byte is the result cut down to eight bits, and the flag is what is
cut off. -/
theorem exists_of_onIntegers? {n : Nibble} {a b : UInt8} {result flag : Int}
    (integers : onIntegers? n a.toNat b.toNat = some (result, flag)) :
    ∃ operation raised, ofNibble? n = some operation ∧ operation.flag? a b = some raised ∧
      ((operation.result a b).toNat : Int) = result ∧ (if raised then 1 else 0) = flag := by
  have left := a.toNat_lt
  have right := b.toNat_lt
  unfold onIntegers? at integers
  split at integers
  next low =>
    cases integers
    refine ⟨.add, _, by simp only [ofNibble?, low], rfl, ?_, ?_⟩
    · simp only [Arithmetic.result, UInt8.toNat_add]
      omega
    · simp only [decide_eq_true_eq]
      omega
  next low =>
    cases integers
    refine ⟨.sub, _, by simp only [ofNibble?, low], rfl, ?_, ?_⟩
    · simp only [Arithmetic.result, UInt8.toNat_sub]
      omega
    · simp only [decide_eq_true_eq, UInt8.le_iff_toNat_le, Int.ofNat_le]
  next low =>
    cases integers
    refine ⟨.shiftRight, _, by simp only [ofNibble?, low], rfl, ?_, ?_⟩
    · simp only [Arithmetic.result, toNat_shiftRight_one]
      omega
    · simp only [decide_eq_true_eq, and_eq_mask_iff a 1 0 rfl, Nat.testBit_zero]
      omega
  next low =>
    cases integers
    refine ⟨.subFrom, _, by simp only [ofNibble?, low], rfl, ?_, ?_⟩
    · simp only [Arithmetic.result, UInt8.toNat_sub]
      omega
    · simp only [decide_eq_true_eq, UInt8.le_iff_toNat_le, Int.ofNat_le]
  next low =>
    cases integers
    refine ⟨.shiftLeft, _, by simp only [ofNibble?, low], rfl, ?_, ?_⟩
    · simp only [Arithmetic.result, toNat_shiftLeft_one]
      omega
    · -- The highest bit of a byte is all that is left of it after seven halvings.
      simp only [decide_eq_true_eq, and_eq_mask_iff a 0x80 7 rfl,
        Nat.testBit_eq_decide_div_mod_eq]
      omega
  next => cases integers

end Arithmetic

namespace Machine

/-- An opcode with a flag leaves the byte and the flag that its operation has on whole numbers. Both
registers are read before either is written, the flag is written last, and no other register
changes. -/
theorem execute_arithmetic (s : Store) {op : Opcode} {result flag : Int}
    (family : op.family.val = 0x8)
    (integers : Arithmetic.onIntegers? op.n (s.machine.register op.x).toNat
      (s.machine.register op.y).toNat =
      some (result, flag)) :
    let m := s.machine
    ∃ operation after,
      (∀ random, m.execute random op = .ok (.arithmetic operation op.x op.y, after)) ∧
      (Procedure.dispatch op).run s = .ok () { s with machine := after } ∧
      ((after.register Nibble.last).toNat : Int) = flag ∧
      (op.x ≠ Nibble.last → ((after.register op.x).toNat : Int) = result) ∧
      (∀ z, z ≠ op.x → z ≠ Nibble.last → after.register z = m.register z) ∧
      after = { m with
        registers := after.registers
        pc := m.pc + 2 } := by
  intro m
  obtain ⟨operation, raised, low, flagged, byte, bit⟩ := Arithmetic.exists_of_onIntegers? integers
  have flagged : operation.flag? (m.register op.x) (m.register op.y) = some raised := flagged
  have executed (random : UInt8) : m.execute random op =
      .ok (.arithmetic operation op.x op.y, m.calculate operation op.x op.y) := by
    have decoded : op.decode = .ok (.arithmetic operation op.x op.y) :=
      (op.decode_eq_ok_iff_means _).mpr ⟨family, low, rfl, rfl⟩
    simp only [execute, decoded]
    rfl
  -- The flag is written last, so it is what remains where both fall on one register.
  have written := m.register_calculate operation op.x op.y
  simp only [flagged] at written
  refine ⟨operation, _, executed, ?_, ?_, fun below => ?_, fun z apart below => ?_, ?_⟩
  · rw [Procedure.dispatch_eq, Procedure.run_execute, executed]
    rfl
  · rw [written, if_pos rfl, ← bit]
    cases raised <;> rfl
  · rw [written, if_neg below, if_pos rfl, byte]
  · rw [written, if_neg below, if_neg apart]
  · obtain ⟨registers, same⟩ := m.calculate_eq operation op.x op.y
    rw [same]

/-- The last register is added to itself, and the sum gives way to its carry. -/
theorem execute_arithmetic_twice :
    let m := { initial with registers := Vector.replicate 16 0xFF }
    let s : Store := ⟨⟨m, []⟩, Dice.ofList []⟩
    ∃ operation after,
      (∀ random, m.execute random 0x8FF4 = .ok (.arithmetic operation 15 15, after)) ∧
      (Procedure.dispatch 0x8FF4).run s = .ok () { s with machine := after } ∧
      after.register Nibble.last = 1 ∧ ∀ z ≠ Nibble.last, after.register z = 0xFF := by
  intro m s
  have held (z : Nibble) : m.register z = 0xFF := Vector.getElem_replicate z.isLt
  have integers : Arithmetic.onIntegers? (Opcode.n 0x8FF4) (m.register (Opcode.x 0x8FF4)).toNat
      (m.register (Opcode.y 0x8FF4)).toNat = some (254, 1) := by
    rw [held, held]
    rfl
  obtain ⟨operation, after, executed, ran, flag, -, others, -⟩ :=
    execute_arithmetic s (by rfl) integers
  refine ⟨operation, after, executed, ran, ?_, fun z below => (others z below below).trans (held z)⟩
  rw [← UInt8.toNat_inj]
  exact Int.ofNat_inj.mp flag

end Machine

end Chip8
