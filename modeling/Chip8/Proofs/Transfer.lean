import Chip8.Proofs.Procedure.Word
import Chip8.Proofs.Veil

/-!
# Between registers and memory

Registers are saved to memory and restored from it in one run, from the first register and from the
index on, and a register is stored as three decimal digits. A run that was written is read back, and
writing back what a run holds changes nothing, so each of these opcodes undoes the other, as far as
they reach.

## Main result

`transfer_round_trip`: saving and restoring pass the same check; what is saved is restored, what is
restored is saved without a trace, and the digits of a register give its value.
-/

namespace Chip8

namespace Opcode

/-- The opcode of family F that names this register and ends in this byte. -/
def ofRegister (x : Nibble) (low : UInt8) : Opcode :=
  UInt16.ofNat (0xF000 + 0x100 * x.val + low.toNat)

theorem ofRegister_parts (x : Nibble) (low : UInt8) :
    (ofRegister x low).family.val = 0xF ∧ (ofRegister x low).kk = low ∧
      (ofRegister x low).x = x := by
  have bound := low.toNat_lt
  have word : (ofRegister x low).toNat = 0xF000 + 0x100 * x.val + low.toNat := by
    rw [ofRegister, UInt16.toNat_ofNat']
    omega
  rw [Fin.ext_iff, ← UInt8.toNat_inj]
  simp only [family, Opcode.x, kk, nibble, word, UInt8.toNat_ofNat', Nat.shiftRight_eq_div_pow]
  omega

theorem decode_save (x : Nibble) : (ofRegister x 0x55).decode = .ok (.save x) :=
  (decode_eq_ok_iff_means _ (.save x)).mpr (ofRegister_parts x 0x55)

theorem decode_restore (x : Nibble) : (ofRegister x 0x65).decode = .ok (.restore x) :=
  (decode_eq_ok_iff_means _ (.restore x)).mpr (ofRegister_parts x 0x65)

theorem decode_decimal (x : Nibble) : (ofRegister x 0x33).decode = .ok (.decimal x) :=
  (decode_eq_ok_iff_means _ (.decimal x)).mpr (ofRegister_parts x 0x33)

end Opcode

namespace Machine

/-- An opcode leads from one machine to another, at once and piece by piece. History and dice have
no part in it. -/
def Leads (m : Machine) (op : Opcode) (after : Machine) : Prop :=
  (∃ instruction, ∀ random, m.execute random op = .ok (instruction, after)) ∧
    ∀ s : Store, s.machine = m → (Procedure.dispatch op).run s = .ok () { s with machine := after }

theorem leads_outcome {m : Machine} {op : Opcode} {instruction : Instruction}
    (decoded : op.decode = .ok instruction) (still : instruction.rolls = false)
    (free : m.fault? instruction = none) : m.Leads op (m.outcome 0 instruction) := by
  have executed (random : UInt8) :
      m.execute random op = .ok (instruction, m.outcome 0 instruction) := by
    refine (m.execute_eq_ok_iff _ _ _ _).mpr ⟨decoded, free, ?_⟩
    exact Instruction.outcome_eq_of_rolled (by rw [still]; nofun) m
  refine ⟨⟨instruction, executed⟩, ?_⟩
  rintro s rfl
  -- What does not roll gives the dice back as they were.
  have unrolled : s.dice.after (some instruction) = s.dice := by simp [Dice.after, still]
  rw [Procedure.dispatch_eq, Procedure.run_execute, executed]
  simp only [Except.map, Store.settle, Store.put, unrolled]

/-- Whether an opcode is executed does not depend on the dice. -/
theorem executes_iff {m : Machine} {op : Opcode} {instruction : Instruction}
    (decoded : op.decode = .ok instruction) (random : UInt8) :
    (∃ done, m.execute random op = .ok done) ↔ m.fault? instruction = none := by
  constructor
  · rintro ⟨⟨found, after⟩, executed⟩
    obtain ⟨same, free, -⟩ := (m.execute_eq_ok_iff _ _ _ _).mp executed
    rw [decoded] at same
    cases same
    exact free
  · intro free
    exact ⟨_, (m.execute_eq_ok_iff _ _ _ _).mpr ⟨decoded, free, rfl⟩⟩

/-! ### One run -/

/-- The registers up to `x`. -/
def upTo (m : Machine) (x : Nibble) : List UInt8 :=
  Cells.slice m.registers 0 (x.val + 1)

theorem length_upTo (m : Machine) (x : Nibble) : (m.upTo x).length = x.val + 1 := by
  have length := Cells.length_slice m.registers 0 (x.val + 1) (by omega)
  rw [Nat.zero_add] at length
  exact length

theorem getD_upTo (m : Machine) (x z : Nibble) (other : UInt8) :
    (m.upTo x).getD z.val other = if z ≤ x then m.register z else other := by
  have read (inside : z.val < x.val + 1) := Cells.getElem?_slice m.registers 0 inside
  simp only [Nat.zero_add] at read
  rw [List.getD_eq_getElem?_getD]
  split
  next covered =>
    have inside : z.val < x.val + 1 := Nat.lt_succ_of_le covered
    rw [upTo, read inside, Vector.getElem?_eq_getElem z.isLt]
    rfl
  next beyond =>
    have outside : (m.upTo x).length ≤ z.val := by
      rw [length_upTo]
      exact Nat.lt_of_not_le beyond
    rw [List.getElem?_eq_none outside, Option.getD_none]

/-- A run that was stored at the index is read from there. -/
theorem bytesAt_of_stored {m after : Machine} {values : List UInt8} {count : Nat}
    (index : after.index = m.index)
    (memory : after.memory = Cells.overwrite m.memory m.index.toNat values)
    (length : values.length = count) (fits : m.index.toNat + count ≤ 4096) :
    after.bytesAt count = values := by
  subst length
  rw [bytesAt, index, memory]
  exact Cells.slice_overwrite m.memory m.index.toNat values fits

theorem register_restore (m : Machine) (x z : Nibble) :
    (m.outcome 0 (.restore x)).register z = (m.bytesAt (x.val + 1)).getD z.val (m.register z) := by
  have written := Cells.getElem_overwrite m.registers 0 (m.bytesAt (x.val + 1)) z.val z.isLt
  rw [if_pos (Nat.zero_le _), Nat.sub_zero] at written
  exact written

theorem missing?_of_fits {m : Machine} {count : Nat} (fits : m.index.toNat + count ≤ 4096) :
    m.missing? count = none :=
  (m.missing?_eq_none_iff count).mpr (.inr fits)

/-! ### There and back -/

/-- What was saved is restored, whatever has become of the registers, and no other register is. -/
theorem restore_saved {m changed : Machine} {x : Nibble} (fits : m.index.toNat + (x.val + 1) ≤ 4096)
    (index : changed.index = m.index)
    (memory : changed.memory = (m.outcome 0 (.save x)).memory) (z : Nibble) :
    (changed.outcome 0 (.restore x)).register z =
      if z ≤ x then m.register z else changed.register z := by
  have bytes : changed.bytesAt (x.val + 1) = m.upTo x :=
    bytesAt_of_stored index memory (m.length_upTo x) fits
  rw [register_restore, bytes, getD_upTo]

/-- What was restored is saved where it came from. -/
theorem save_restored {m : Machine} {x : Nibble} (fits : m.index.toNat + (x.val + 1) ≤ 4096) :
    ((m.outcome 0 (.restore x)).outcome 0 (.save x)).memory = m.memory := by
  have length : (m.bytesAt (x.val + 1)).length = x.val + 1 := Cells.length_slice _ _ _ fits
  have held : (m.outcome 0 (.restore x)).upTo x = m.bytesAt (x.val + 1) := by
    have read := Cells.slice_overwrite m.registers 0 (m.bytesAt (x.val + 1)) (by omega)
    rw [Nat.zero_add, length] at read
    exact read
  change Cells.overwrite m.memory m.index.toNat ((m.outcome 0 (.restore x)).upTo x) = m.memory
  rw [held]
  exact Cells.overwrite_slice m.memory m.index.toNat (x.val + 1) fits

/-- The digits that were stored are restored to the first three registers. -/
theorem restore_digits {m : Machine} (x : Nibble) (fits : m.index.toNat + 3 ≤ 4096) (z : Nibble) :
    ((m.outcome 0 (.decimal x)).outcome 0 (.restore 2)).register z =
      (m.digits x).getD z.val (m.register z) := by
  have bytes : (m.outcome 0 (.decimal x)).bytesAt ((2 : Nibble).val + 1) = m.digits x :=
    bytesAt_of_stored (m := m) rfl rfl rfl fits
  rw [register_restore, bytes]
  rfl

/-- The digits of a register are decimal, and the number that they write is its value. -/
theorem digits_denote (m : Machine) (x : Nibble) :
    ∃ hundreds tens units, m.digits x = [hundreds, tens, units] ∧
      hundreds.toNat < 10 ∧ tens.toNat < 10 ∧ units.toNat < 10 ∧
      100 * hundreds.toNat + 10 * tens.toNat + units.toNat = (m.register x).toNat := by
  have bound := (m.register x).toNat_lt
  refine ⟨_, _, _, rfl, ?_⟩
  simp only [UInt8.toNat_div, UInt8.toNat_mod, UInt8.reduceToNat]
  omega

/-- Registers are saved and restored under the same condition, and each undoes the other: what was
saved is restored after any change that keeps index and memory, and saving what was restored leaves
memory as it was. The digits of a register, restored to the first three, give its value. -/
theorem transfer_round_trip (m : Machine) (x : Nibble) :
    (∀ random,
      ((∃ done, m.execute random (.ofRegister x 0x55) = .ok done) ↔
        m.index.toNat + x.val + 1 ≤ 4096) ∧
      ((∃ done, m.execute random (.ofRegister x 0x65) = .ok done) ↔
        m.index.toNat + x.val + 1 ≤ 4096)) ∧
    (m.index.toNat + x.val + 1 ≤ 4096 →
      (∃ saved, m.Leads (.ofRegister x 0x55) saved ∧ saved.index = m.index ∧
        ∀ changed : Machine, changed.index = saved.index → changed.memory = saved.memory →
          ∃ loaded, changed.Leads (.ofRegister x 0x65) loaded ∧ loaded.index = m.index ∧
            ∀ z, loaded.register z = if z ≤ x then m.register z else changed.register z) ∧
      ∃ loaded saved,
        m.Leads (.ofRegister x 0x65) loaded ∧ loaded.Leads (.ofRegister x 0x55) saved ∧
        loaded.index = m.index ∧ saved.index = m.index ∧
        loaded.memory = m.memory ∧ saved.memory = m.memory) ∧
    (m.index.toNat + 3 ≤ 4096 →
      ∃ written loaded,
        m.Leads (.ofRegister x 0x33) written ∧ written.Leads (.ofRegister 2 0x65) loaded ∧
        (loaded.register 0).toNat < 10 ∧ (loaded.register 1).toNat < 10 ∧
        (loaded.register 2).toNat < 10 ∧
        100 * (loaded.register 0).toNat + 10 * (loaded.register 1).toNat +
          (loaded.register 2).toNat =
          (m.register x).toNat ∧
        ∀ address : Fin 4096, address.val < m.index.toNat ∨ m.index.toNat + 3 ≤ address.val →
          written.memory.get address = m.memory.get address ∧
            loaded.memory.get address = m.memory.get address) := by
  have room : m.missing? (x.val + 1) = none ↔ m.index.toNat + x.val + 1 ≤ 4096 := by
    rw [m.missing?_eq_none_iff]
    omega
  refine ⟨fun random => ⟨?_, ?_⟩, fun fits => ⟨?_, ?_⟩, fun fits => ?_⟩
  · -- Saving and restoring ask for the same span.
    exact (executes_iff (Opcode.decode_save x) random).trans room
  · exact (executes_iff (Opcode.decode_restore x) random).trans room
  · refine ⟨_, leads_outcome (Opcode.decode_save x) rfl (room.mpr fits), rfl, ?_⟩
    intro changed index memory
    -- The change leaves the span where it was.
    have index : changed.index = m.index := index
    have inside : changed.index.toNat + (x.val + 1) ≤ 4096 := by rwa [index]
    exact ⟨_, leads_outcome (Opcode.decode_restore x) rfl (missing?_of_fits inside), index,
      restore_saved fits index memory⟩
  · -- Restoring moves neither the index nor memory, so the span is still there.
    exact ⟨_, _, leads_outcome (Opcode.decode_restore x) rfl (room.mpr fits),
      leads_outcome (Opcode.decode_save x) rfl (room.mpr fits), rfl, rfl, rfl, save_restored fits⟩
  · obtain ⟨hundreds, tens, units, digits, denote⟩ := m.digits_denote x
    have loaded := restore_digits x fits
    rw [digits] at loaded
    refine ⟨_, _, leads_outcome (Opcode.decode_decimal x) rfl (missing?_of_fits fits),
      leads_outcome (Opcode.decode_restore 2) rfl (missing?_of_fits fits), ?_⟩
    rw [loaded, loaded, loaded]
    -- Restoring writes registers alone, so memory stays as the digits left it.
    obtain ⟨below, small, low, value⟩ := denote
    refine ⟨below, small, low, value, fun address apart => ?_⟩
    have kept : (m.outcome 0 (.decimal x)).memory.get address = m.memory.get address := by
      refine Decidable.byContradiction fun changed => ?_
      have inside : m.index.toNat ≤ address.val ∧ address.val < m.index.toNat + 3 :=
        Cells.inside_of_overwrite_ne changed
      omega
    exact ⟨kept, kept⟩

/-- All registers fit below the end of memory, and come back from there after they were cleared. -/
theorem transfer_round_trip_last :
    let m := { initial with
      index := 4080
      registers := Vector.replicate 16 0xFF }
    m.index.toNat + 15 + 1 ≤ 4096 ∧
      (∃ saved loaded, m.Leads (.ofRegister 15 0x55) saved ∧
        Leads { saved with registers := Vector.replicate 16 0 } (.ofRegister 15 0x65) loaded ∧
        ∀ z, loaded.register z = 0xFF) ∧
      ∃ written loaded,
        m.Leads (.ofRegister 1 0x33) written ∧ written.Leads (.ofRegister 2 0x65) loaded ∧
        100 * (loaded.register 0).toNat + 10 * (loaded.register 1).toNat +
          (loaded.register 2).toNat =
          255 := by
  intro m
  have fits : m.index.toNat + 15 + 1 ≤ 4096 := by decide
  have held (z : Nibble) : m.register z = 0xFF := Vector.getElem_replicate z.isLt
  obtain ⟨-, transfers, -⟩ := m.transfer_round_trip 15
  obtain ⟨⟨saved, saves, -, restores⟩, -⟩ := transfers fits
  obtain ⟨loaded, loads, -, registers⟩ :=
    restores { saved with registers := Vector.replicate 16 0 } rfl rfl
  obtain ⟨-, -, digits⟩ := m.transfer_round_trip 1
  obtain ⟨written, read, writes, reads, -, -, -, value, -⟩ := digits (by decide)
  refine ⟨fits, ⟨saved, loaded, saves, loads, fun z => ?_⟩, written, read, writes, reads, ?_⟩
  · have covered : z ≤ 15 := Fin.le_last z
    rw [registers, if_pos covered, held]
  · rw [value, held]
    rfl

end Machine

end Chip8
