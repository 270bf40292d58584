import Chip8.Proofs.Procedure.Drawing
import Chip8.Proofs.Refusal

/-!
# Procedures agree with the machine

Carried out piece by piece, an opcode comes to what the machine says at once: no piece gets stuck,
and whatever refuses the opcode does so before anything is written.
-/

namespace Chip8

namespace Procedure

theorem run_decimal (x : Nibble) (s : Store) :
    (decimal x).run s =
      s.settle ((s.machine.storeDecimal x).map fun after => { s with machine := after }) := by
  simp only [decimal, Machine.storeDecimal, EStateM.run_bind, run_machine,
    run_span _ 3 (by decide)]
  have three : UInt64.ofNat 3 = 3 := rfl
  rw [three]
  cases found : Span.within s.machine.index 3 with
  | error cause => rfl
  | ok place =>
    obtain ⟨first, rfl, fits⟩ := exists_eq_of_within (by decide) found
    simp only [run_register]
    generalize s.machine.register x = value
    -- A byte has at most two hundreds.
    have hundreds : value / 100 % 10 = value / 100 := by
      have bound := value.toNat_lt
      simp only [← UInt8.toNat_inj, UInt8.toNat_mod, UInt8.toNat_div, UInt8.reduceToNat]
      omega
    have copied :=
      Cells.copy?_eq s.machine.memory [value / 100, value / 10 % 10, value % 10] fits rfl
    simp only [hundreds, copied, run_need_some, run_change, run_advance]
    rfl

theorem run_save (x : Nibble) (s : Store) :
    (save x).run s =
      s.settle ((s.machine.saveRegisters x).map fun after => { s with machine := after }) := by
  have short : x.val + 1 ≤ 16 := x.isLt
  simp only [save, Machine.saveRegisters, EStateM.run_bind, run_machine,
    run_fit (lt_size (show x.val + 1 < _ by omega)), run_span _ _ short]
  cases found : Span.within s.machine.index (UInt64.ofNat (x.val + 1)) with
  | error cause => rfl
  | ok place =>
    obtain ⟨first, rfl, fits⟩ := exists_eq_of_within short found
    have bytes := Cells.slice?_eq s.machine.registers 0 (x.val + 1) (by omega)
    have length := Cells.length_slice s.machine.registers 0 (x.val + 1) (by omega)
    rw [Nat.zero_add] at bytes length
    simp only [bytes, Cells.copy?_eq _ _ fits length, run_need_some, run_change, run_advance]
    rfl

theorem run_restore (x : Nibble) (s : Store) :
    (restore x).run s =
      s.settle ((s.machine.restoreRegisters x).map fun after => { s with machine := after }) := by
  have short : x.val + 1 ≤ 16 := x.isLt
  simp only [restore, Machine.restoreRegisters, EStateM.run_bind, run_machine,
    run_fit (lt_size (show x.val + 1 < _ by omega)), run_span _ _ short]
  cases found : Span.within s.machine.index (UInt64.ofNat (x.val + 1)) with
  | error cause => rfl
  | ok place =>
    obtain ⟨first, rfl, fits⟩ := exists_eq_of_within short found
    have length := Cells.length_slice s.machine.memory first (x.val + 1) fits
    have room : 0 + (x.val + 1) ≤ 16 := by omega
    have copied := Cells.copy?_eq s.machine.registers _ room length
    rw [Nat.zero_add] at copied
    simp only [Cells.slice?_eq _ _ _ fits, copied, run_need_some, run_change, run_advance]
    rfl

/-- Carried out piece by piece, an instruction comes to the same as at once. -/
theorem run_apply (instruction : Instruction) (s : Store) :
    (apply instruction).run s =
      s.settle ((instruction.apply s.dice.top s.machine).map (s.put instruction)) := by
  cases instruction with
  | ret => exact run_ret s
  | call target => exact run_call target s
  | draw x y rows => exact run_draw x y rows s
  | decimal x => exact run_decimal x s
  | save x => exact run_save x s
  | restore x => exact run_restore x s
  | skip condition =>
    simp only [apply, EStateM.run_bind, run_holds, run_advance]
    rfl
  | arithmetic operation x y => exact run_calculate operation x y s
  | jumpOffset target =>
    -- An address and a byte make up less than a word, so the sum is exact.
    have offset := (s.machine.register Nibble.first).toNat_lt
    have small : (s.machine.register Nibble.first).toNat + target.val < UInt16.size := by
      simp only [UInt16.size]
      omega
    have first : (register 0).run s = .ok (s.machine.register Nibble.first) s :=
      run_register Nibble.first s
    simp only [apply, EStateM.run_bind, first, run_fit small, run_change]
    rfl
  | glyph x =>
    have digit := (Nibble.ofByte (s.machine.register x)).isLt
    have small : (Nibble.ofByte (s.machine.register x)).val * Font.glyphHeight < UInt16.size := by
      simp only [Font.glyphHeight, UInt16.size]
      omega
    simp only [apply, EStateM.run_bind, run_register, toNat_and_low, run_fit small, run_change,
      run_advance]
    rfl
  | _ =>
    simp only [apply, EStateM.run_bind, run_register, run_setRegister, run_machine, run_roll,
      run_change, run_advance]
    rfl

theorem run_execute (op : Opcode) (s : Store) :
    (execute op).run s =
      s.settle ((s.machine.execute s.dice.top op).map fun done => s.put done.1 done.2) := by
  unfold execute Machine.execute
  cases op.decode with
  | error cause => rfl
  | ok instruction =>
    dsimp only
    rw [run_apply]
    cases applied : instruction.apply s.dice.top s.machine with
    | error cause => simp [applied, bind, Except.bind, Except.map]
    | ok after => simp [applied, bind, Except.bind, Except.map, pure, Except.pure]

theorem shiftLeft_or_eq_ofBytes (high low : UInt8) :
    high.toUInt16 <<< 8 ||| low.toUInt16 = Opcode.ofBytes high low := by
  have bound := high.toNat_lt
  have eight : (8 : UInt16).toNat % 16 = 8 := rfl
  -- No bit of the high byte is lost, and none falls on the low byte.
  have moved : high.toNat <<< 8 % 2 ^ 16 = high.toNat <<< 8 := by
    rw [Nat.shiftLeft_eq]
    omega
  rw [← UInt16.toNat_inj, UInt16.toNat_or, UInt16.toNat_shiftLeft, UInt8.toNat_toUInt16,
    UInt8.toNat_toUInt16, eight, moved, ← Nat.shiftLeft_add_eq_or_of_lt low.toNat_lt,
    Nat.shiftLeft_eq, Opcode.ofBytes, UInt16.toNat_ofNat']
  have := low.toNat_lt
  omega

theorem run_fetch (s : Store) :
    fetch.run s = match s.machine.fetch with
      | .ok op => .ok op s
      | .error cause => .error (.fault cause) s := by
  simp only [fetch, Machine.fetch, EStateM.run_bind, run_machine, run_span _ 2 (by decide),
    Span.within_ofNat _ 2 (by decide), Memory.size]
  by_cases room : s.machine.pc.toNat + 1 < 4096
  · have fits : s.machine.pc.toNat + 2 ≤ 4096 := by omega
    -- The span holds exactly two bytes, so both are there.
    have bytes := Cells.slice?_eq s.machine.memory s.machine.pc.toNat 2 fits
    rw [Cells.slice_succ _ _ 1 fits, Cells.slice_succ _ _ 0 (by omega)] at bytes
    simp [room, fits, bytes, shiftLeft_or_eq_ofBytes]
  · have beyond : ¬ s.machine.pc.toNat + 2 ≤ 4096 := by omega
    simp [room, beyond]

end Procedure

/-- Only the opcode of a return moves the machine on once more. -/
theorem resume_eq {op : Opcode} {instruction : Instruction}
    (decoded : op.decode = .ok instruction) (m : Machine) :
    m.resume instruction = if op = 0x00EE then m.next else m := by
  have ret := op.decode_eq_ret_iff
  rw [decoded, Except.ok.injEq] at ret
  split
  next word => rw [ret.mpr word]; rfl
  next other =>
    cases instruction with
    | ret => exact absurd (ret.mp rfl) other
    | _ => rfl

def Store.move (s : Store) (executed : Instruction) (after : Machine) : Store where
  machine := after
  history := s.machine ::
    if s.history.length = Console.historyLimit then s.history.dropLast else s.history
  dice := s.dice.after (some executed)

/-- Dropping the oldest state of a full history first is forgetting it afterwards. -/
theorem Store.move_toConsole (s : Store) (executed : Instruction) (after : Machine)
    (kept : s.history.length ≤ Console.historyLimit) :
    (s.move executed after).toConsole = s.toConsole.advance after := by
  simp only [move, Console.advance]
  by_cases full : s.history.length = Console.historyLimit
  · rw [if_pos full, List.dropLast_eq_take, full]
    rfl
  · have room : (s.machine :: s.history).length ≤ Console.historyLimit := by
      rw [List.length_cons]
      omega
    rw [if_neg full, List.take_of_length_le room]

namespace Procedure

/-- Carried out piece by piece, a step comes to the same as at once, but that the history is cut
before the new state is put on it. -/
theorem run_step (s : Store) :
    step.run s = s.settle ((s.machine.step s.dice.top).map fun
      | none => s
      | some (executed, after) => s.move executed after) := by
  unfold step Machine.step
  simp only [EStateM.run_bind, run_machine]
  split
  next waits => rfl
  next ready =>
    simp only [EStateM.run_bind, run_fetch]
    cases fetched : s.machine.fetch with
    | error cause => rfl
    | ok op =>
      simp only [run_machine, run_execute]
      cases executed : s.machine.execute s.dice.top op with
      | error cause => simp [Machine.cycle, executed, bind, Except.bind, Except.map, Store.settle]
      | ok done =>
        obtain ⟨instruction, after⟩ := done
        have decoded : op.decode = .ok instruction := by
          obtain ⟨found, decoded, rest⟩ := (bind_eq_ok_iff _ _ _).mp executed
          obtain ⟨_, _, same⟩ := (bind_eq_ok_iff _ _ _).mp rest
          cases same
          exact decoded
        simp only [Machine.cycle, executed, bind, Except.bind, pure, Except.pure, Except.map,
          Store.settle, resume_eq decoded]
        -- Either way the state that is remembered was read before the opcode was executed.
        split
        next ret => rfl
        next other => rfl

end Procedure

end Chip8
