import Chip8.Proofs.Step
import Chip8.Proofs.Table

/-!
# When an opcode is refused

`Refuses` lists, case by case, the opcodes that a machine does not execute and the fault of each.
It speaks of nibbles and bounds only, and `execute_eq_error_iff` shows that executing an opcode
fails in these cases and in no other. `Halts` does the same for a whole step.
-/

namespace Chip8

namespace Machine

/-- The fault of the bytes from the index on, if memory does not have them all. -/
def missing? (m : Machine) (length : Nat) : Option Fault :=
  if 0 < length ∧ 4096 < m.index.toNat + length then
    some (.outOfBounds (m.index.toNat + length - 1))
  else
    none

/-- The fault that stops an instruction, if any. -/
def fault? (m : Machine) : Instruction → Option Fault
  | .ret =>
    if m.sp = 0 then some (.stackUnderflow m.pc)
    else if 16 < m.sp.toNat then some (.stackOverflow m.pc)
    else none
  | .call _ => if 16 ≤ m.sp.toNat then some (.stackOverflow m.pc) else none
  | .draw _ _ rows => m.missing? rows.val
  | .decimal _ => m.missing? 3
  | .save x | .restore x => m.missing? (x.val + 1)
  | _ => none

theorem missing?_eq_some_iff (m : Machine) (length : Nat) (fault : Fault) :
    m.missing? length = some fault ↔ 0 < length ∧ 4096 < m.index.toNat + length ∧
      fault = .outOfBounds (m.index.toNat + length - 1) := by
  simp [missing?, and_assoc, eq_comm]

theorem missing?_eq_none_iff (m : Machine) (length : Nat) :
    m.missing? length = none ↔ length = 0 ∨ m.index.toNat + length ≤ 4096 := by
  unfold missing?
  split
  next beyond =>
    simp only [reduceCtorEq, false_iff]
    omega
  next inside =>
    simp only [true_iff]
    omega

theorem fault?_call_eq_none_iff (m : Machine) (target : Address) :
    m.fault? (.call target) = none ↔ m.sp.toNat < 16 := by
  simp only [fault?, ite_eq_right_iff, reduceCtorEq, imp_false, Nat.not_le]

theorem fault?_ret_eq_none_iff (m : Machine) :
    m.fault? .ret = none ↔ m.sp ≠ 0 ∧ m.sp.toNat ≤ 16 := by
  simp only [fault?]
  split
  next bottom => simp [bottom]
  next above => simp [above]

theorem within_eq_error_iff (m : Machine) (length : Nat) (short : length ≤ 16) (fault : Fault) :
    Span.within m.index (UInt64.ofNat length) = .error fault ↔ m.missing? length = some fault := by
  rw [Span.within_ofNat m.index length short, missing?_eq_some_iff, Memory.size]
  split
  next empty => simp [empty]
  next filled =>
    have positive : 0 < length := Nat.pos_of_ne_zero filled
    split
    next inside =>
      have low : ¬ 4096 < m.index.toNat + length := by omega
      simp [low]
    next beyond =>
      have high : 4096 < m.index.toNat + length := by omega
      simp [positive, high, eq_comm]

theorem enter_eq_error_iff (m : Machine) (target : Address) (fault : Fault) :
    m.enter target = .error fault ↔ m.fault? (.call target) = some fault := by
  unfold enter
  split
  next room =>
    have : ¬ 16 ≤ m.sp.toNat := by omega
    simp [fault?, this]
  next full =>
    have : 16 ≤ m.sp.toNat := by omega
    simp [fault?, this]

theorem leave_eq_error_iff (m : Machine) (fault : Fault) :
    m.leave = .error fault ↔ m.fault? .ret = some fault := by
  unfold leave fault?
  split
  next bottom => simp
  next above =>
    split
    next held =>
      have : ¬ 16 < m.sp.toNat := by omega
      simp [this]
    next beyond =>
      have : 16 < m.sp.toNat := by omega
      simp [this]

theorem span_bind_eq_error_iff (m : Machine) (length : Nat) (short : length ≤ 16)
    (work : Span → Machine) (fault : Fault) :
    (Span.within m.index (UInt64.ofNat length) >>= fun span => pure (work span)) = .error fault ↔
      m.missing? length = some fault := by
  rw [bind_eq_error_iff, m.within_eq_error_iff length short]
  simp [pure, Except.pure]

end Machine

/-- An instruction fails if and only if its own check does. -/
theorem Instruction.apply_eq_error_iff (instruction : Instruction) (random : UInt8) (m : Machine)
    (fault : Fault) :
    instruction.apply random m = .error fault ↔ m.fault? instruction = some fault := by
  cases instruction with
  | ret => exact m.leave_eq_error_iff fault
  | call target => exact m.enter_eq_error_iff target fault
  | draw x y rows => exact m.span_bind_eq_error_iff rows.val (by omega) _ fault
  | decimal x => exact m.span_bind_eq_error_iff 3 (by decide) _ fault
  | save x | restore x => exact m.span_bind_eq_error_iff (x.val + 1) (by omega) _ fault
  | _ => simp [apply, Machine.fault?]

namespace Opcode

/-! ### The opcodes of the instructions that can fail -/

theorem decode_eq_ret_iff (op : Opcode) : op.decode = .ok .ret ↔ op = 0x00EE :=
  op.decode_eq_ok_iff_means .ret

theorem decode_eq_call_iff (op : Opcode) (target : Address) :
    op.decode = .ok (.call target) ↔ op.family = 0x2 ∧ op.address = target :=
  (op.decode_eq_ok_iff_means (.call target)).trans
    (and_congr_left' (@Fin.ext_iff 16 op.family 0x2).symm)

theorem decode_eq_draw_iff (op : Opcode) (x y rows : Nibble) :
    op.decode = .ok (.draw x y rows) ↔ op.family = 0xD ∧ op.x = x ∧ op.y = y ∧ op.n = rows :=
  (op.decode_eq_ok_iff_means (.draw x y rows)).trans
    (and_congr_left' (@Fin.ext_iff 16 op.family 0xD).symm)

theorem decode_eq_decimal_iff (op : Opcode) (x : Nibble) :
    op.decode = .ok (.decimal x) ↔ (op.family = 0xF ∧ op.kk = 0x33) ∧ op.x = x :=
  op.decode_eq_iff_of_byte rfl

theorem decode_eq_save_iff (op : Opcode) (x : Nibble) :
    op.decode = .ok (.save x) ↔ (op.family = 0xF ∧ op.kk = 0x55) ∧ op.x = x :=
  op.decode_eq_iff_of_byte rfl

theorem decode_eq_restore_iff (op : Opcode) (x : Nibble) :
    op.decode = .ok (.restore x) ↔ (op.family = 0xF ∧ op.kk = 0x65) ∧ op.x = x :=
  op.decode_eq_iff_of_byte rfl

end Opcode

/-- Why a machine does not execute an opcode. -/
inductive Machine.Refuses (m : Machine) (op : Opcode) : Fault → Prop
  /-- The first family has two instructions, and everything else in it is machine code. -/
  | machineCode (first : op.family = 0x0) (other : op ≠ 0x00E0 ∧ op ≠ 0x00EE) :
      Refuses m op (.machineCode op)
  | unmapped (outside : op.family ≠ 0x0) (none : ∀ row ∈ Instruction.table, ¬ row.Fits op) :
      Refuses m op (.unmapped op)
  | noCaller (ret : op = 0x00EE) (bottom : m.sp = 0) : Refuses m op (.stackUnderflow m.pc)
  | beyondStack (ret : op = 0x00EE) (beyond : 16 < m.sp.toNat) :
      Refuses m op (.stackOverflow m.pc)
  | fullStack (call : op.family = 0x2) (full : 16 ≤ m.sp.toNat) :
      Refuses m op (.stackOverflow m.pc)
  | sprite (draw : op.family = 0xD) (filled : 0 < op.n.val)
      (beyond : 4096 < m.index.toNat + op.n.val) :
      Refuses m op (.outOfBounds (m.index.toNat + op.n.val - 1))
  | digits (decimal : op.family = 0xF ∧ op.kk = 0x33) (beyond : 4096 < m.index.toNat + 3) :
      Refuses m op (.outOfBounds (m.index.toNat + 2))
  | registers (transfer : op.family = 0xF ∧ (op.kk = 0x55 ∨ op.kk = 0x65))
      (beyond : 4096 < m.index.toNat + (op.x.val + 1)) :
      Refuses m op (.outOfBounds (m.index.toNat + op.x.val))

namespace Machine

theorem Refuses.of_fault {m : Machine} {op : Opcode} {instruction : Instruction} {fault : Fault}
    (decoded : op.decode = .ok instruction) (failed : m.fault? instruction = some fault) :
    m.Refuses op fault := by
  cases instruction with
  | ret =>
    have ret := op.decode_eq_ret_iff.mp decoded
    simp only [fault?] at failed
    split at failed
    next bottom => cases failed; exact .noCaller ret bottom
    next =>
      split at failed
      next beyond => cases failed; exact .beyondStack ret beyond
      next => cases failed
  | call target =>
    obtain ⟨call, -⟩ := (op.decode_eq_call_iff target).mp decoded
    simp only [fault?] at failed
    split at failed
    next full => cases failed; exact .fullStack call full
    next => cases failed
  | draw x y rows =>
    obtain ⟨draw, -, -, rfl⟩ := (op.decode_eq_draw_iff x y rows).mp decoded
    obtain ⟨filled, beyond, rfl⟩ := (m.missing?_eq_some_iff _ _).mp failed
    exact .sprite draw filled beyond
  | decimal x =>
    obtain ⟨decimal, -⟩ := (op.decode_eq_decimal_iff x).mp decoded
    obtain ⟨-, beyond, rfl⟩ := (m.missing?_eq_some_iff _ _).mp failed
    exact .digits decimal beyond
  | save x =>
    obtain ⟨⟨last, save⟩, rfl⟩ := (op.decode_eq_save_iff x).mp decoded
    obtain ⟨-, beyond, rfl⟩ := (m.missing?_eq_some_iff _ _).mp failed
    exact .registers ⟨last, .inl save⟩ beyond
  | restore x =>
    obtain ⟨⟨last, restore⟩, rfl⟩ := (op.decode_eq_restore_iff x).mp decoded
    obtain ⟨-, beyond, rfl⟩ := (m.missing?_eq_some_iff _ _).mp failed
    exact .registers ⟨last, .inr restore⟩ beyond
  -- Nothing else has a check.
  | _ => cases failed

theorem Refuses.of_decode_error {m : Machine} {op : Opcode} {fault : Fault}
    (refused : op.decode = .error fault) : m.Refuses op fault := by
  obtain ⟨none, rfl⟩ := (op.decode_eq_error_iff fault).mp refused
  split
  next first =>
    refine .machineCode first ⟨?_, ?_⟩
    · rintro rfl
      cases refused
    · rintro rfl
      cases refused
  next outside => exact .unmapped outside none

theorem Refuses.stops {m : Machine} {op : Opcode} {fault : Fault} (refused : m.Refuses op fault) :
    op.decode = .error fault ∨
      ∃ instruction, op.decode = .ok instruction ∧ m.fault? instruction = some fault := by
  cases refused with
  | machineCode first other =>
    left
    simp [Opcode.decode, first, other]
  | unmapped outside none => exact .inl ((op.decode_eq_error_iff _).mpr ⟨none, by simp [outside]⟩)
  | noCaller ret bottom => exact .inr ⟨.ret, op.decode_eq_ret_iff.mpr ret, by simp [fault?, bottom]⟩
  | beyondStack ret beyond =>
    -- The check for an empty stack comes first and passes.
    have above : m.sp ≠ 0 := by
      intro bottom
      simp [bottom] at beyond
    exact .inr ⟨.ret, op.decode_eq_ret_iff.mpr ret, by simp [fault?, above, beyond]⟩
  | fullStack call full =>
    exact .inr ⟨.call op.address, (op.decode_eq_call_iff _).mpr ⟨call, rfl⟩, by simp [fault?, full]⟩
  | sprite draw filled beyond =>
    exact .inr ⟨.draw op.x op.y op.n, (op.decode_eq_draw_iff _ _ _).mpr ⟨draw, rfl, rfl, rfl⟩,
      (m.missing?_eq_some_iff _ _).mpr ⟨filled, beyond, rfl⟩⟩
  | digits decimal beyond =>
    exact .inr ⟨.decimal op.x, (op.decode_eq_decimal_iff _).mpr ⟨decimal, rfl⟩,
      (m.missing?_eq_some_iff _ _).mpr ⟨by decide, beyond, rfl⟩⟩
  | registers transfer beyond =>
    -- Storing and loading take the same span.
    have missing := (m.missing?_eq_some_iff (op.x.val + 1) _).mpr ⟨Nat.succ_pos _, beyond, rfl⟩
    obtain ⟨last, save | restore⟩ := transfer
    · exact .inr ⟨.save op.x, (op.decode_eq_save_iff _).mpr ⟨⟨last, save⟩, rfl⟩, missing⟩
    · exact .inr ⟨.restore op.x, (op.decode_eq_restore_iff _).mpr ⟨⟨last, restore⟩, rfl⟩, missing⟩

/-- An opcode fails when it is decoded or when its instruction is applied. -/
theorem execute_eq_error_iff_fault? (m : Machine) (random : UInt8) (op : Opcode) (fault : Fault) :
    m.execute random op = .error fault ↔ op.decode = .error fault ∨
      ∃ instruction, op.decode = .ok instruction ∧ m.fault? instruction = some fault := by
  simp [execute, bind_eq_error_iff, Instruction.apply_eq_error_iff, pure, Except.pure]

/-- Executing an opcode fails if and only if the machine refuses it. -/
theorem execute_eq_error_iff (m : Machine) (random : UInt8) (op : Opcode) (fault : Fault) :
    m.execute random op = .error fault ↔ m.Refuses op fault := by
  rw [execute_eq_error_iff_fault?]
  constructor
  · rintro (undecoded | ⟨instruction, decoded, failed⟩)
    · exact .of_decode_error undecoded
    · exact .of_fault decoded failed
  · exact Refuses.stops

/-- Why a machine does not make a step. -/
inductive Halts (m : Machine) : Fault → Prop
  /-- The second byte of an opcode would lie beyond memory. -/
  | beyondMemory (ready : m.awaiting = none) (beyond : 0xFFE < m.pc.toNat) :
      Halts m (.outOfBounds (m.pc.toNat + 1))
  | refused {fault : Fault} (ready : m.awaiting = none) (first : m.pc.toNat < 4096)
      (second : m.pc.toNat + 1 < 4096)
      (refuses : m.Refuses (.ofBytes m.memory[m.pc.toNat] m.memory[m.pc.toNat + 1]) fault) :
      Halts m fault

theorem step_eq_error_iff_halts (m : Machine) (random : UInt8) (fault : Fault) :
    m.step random = .error fault ↔ m.Halts fault := by
  rw [step_eq_error_iff, Option.isSome_eq_false_iff, Option.isNone_iff_eq_none]
  simp only [execute_eq_error_iff]
  unfold fetch
  constructor
  · rintro ⟨ready, stopped⟩
    split at stopped
    next inside =>
      obtain ⟨op, fetched, refuses⟩ := stopped.resolve_left (by simp)
      cases fetched
      exact .refused ready (Nat.lt_of_succ_lt inside) inside refuses
    next beyond =>
      rcases stopped with unfetched | ⟨op, fetched, -⟩
      · cases unfetched
        exact .beyondMemory ready (by omega)
      · cases fetched
  · rintro (⟨ready, beyond⟩ | ⟨ready, _, inside, refuses⟩)
    · have outside : ¬ m.pc.toNat + 1 < 4096 := by omega
      exact ⟨ready, by simp [outside]⟩
    · exact ⟨ready, .inr ⟨_, by simp only [inside, dite_true], refuses⟩⟩

end Machine

end Chip8
