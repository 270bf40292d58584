import Chip8.Proofs.Refusal

/-!
# The state after an instruction

If nothing stops an instruction, the state that it leaves can be written down field by field, and
which part of a machine it touches is read off the fields. `apply_eq_ok_iff` says that an
instruction is carried out if and only if nothing stops it, and that it then leaves this state.
-/

namespace Chip8

/-- Whether an instruction changes the screen. -/
def Instruction.draws : Instruction → Bool
  | .clear | .draw .. => true
  | _ => false

namespace Machine

/-- The bytes from the index on. -/
def bytesAt (m : Machine) (length : Nat) : List UInt8 :=
  Cells.slice m.memory m.index.toNat (m.index.toNat + length)

theorem length_bytesAt_le (m : Machine) (length : Nat) : (m.bytesAt length).length ≤ length := by
  simp only [bytesAt, Cells.slice, Vector.length_toList]
  omega

theorem getElem?_bytesAt (m : Machine) {length row : Nat} (inside : row < length) :
    (m.bytesAt length)[row]? = m.memory[m.index.toNat + row]? :=
  Cells.getElem?_slice m.memory m.index.toNat inside

/-- The hundreds, tens and units of a register. -/
def digits (m : Machine) (x : Nibble) : List UInt8 :=
  [m.register x / 100, m.register x / 10 % 10, m.register x % 10]

def registersAfter (m : Machine) (random : UInt8) : Instruction → Vector UInt8 16
  | .setByte x kk => (m.setRegister x kk).registers
  | .addByte x kk => (m.setRegister x (m.register x + kk)).registers
  | .arithmetic operation x y => (m.calculate operation x y).registers
  | .random x kk => (m.setRegister x (random &&& kk)).registers
  | .draw x y rows =>
    (m.setFlag (m.screen.collides (m.register x) (m.register y) (m.bytesAt rows.val))).registers
  | .readDelay x => (m.setRegister x m.delay).registers
  | .restore x => Cells.overwrite m.registers 0 (m.bytesAt (x.val + 1))
  | _ => m.registers

def indexAfter (m : Machine) : Instruction → UInt16
  | .setIndex target => UInt16.ofNat target.val
  | .addIndex x => m.index + (m.register x).toUInt16
  | .glyph x => Font.address (Nibble.ofByte (m.register x))
  | _ => m.index

def delayAfter (m : Machine) : Instruction → UInt8
  | .setDelay x => m.register x
  | _ => m.delay

def soundAfter (m : Machine) : Instruction → UInt8
  | .setSound x => m.register x
  | _ => m.sound

def memoryAfter (m : Machine) : Instruction → Memory
  | .decimal x => Cells.overwrite m.memory m.index.toNat (m.digits x)
  | .save x => Cells.overwrite m.memory m.index.toNat (Cells.slice m.registers 0 (x.val + 1))
  | _ => m.memory

def screenAfter (m : Machine) : Instruction → Screen
  | .clear => Screen.blank
  | .draw x y rows => m.screen.draw (m.register x) (m.register y) (m.bytesAt rows.val)
  | _ => m.screen

/-- The state after an instruction that nothing stops. -/
def outcome (m : Machine) (random : UInt8) (instruction : Instruction) : Machine where
  registers := m.registersAfter random instruction
  index := m.indexAfter instruction
  pc := m.target instruction
  sp := m.spAfter instruction
  delay := m.delayAfter instruction
  sound := m.soundAfter instruction
  stack := m.stackAfter instruction
  memory := m.memoryAfter instruction
  screen := m.screenAfter instruction
  redraw := instruction.draws || m.redraw
  pressed := m.pressed
  awaiting := m.awaitingAfter instruction

/-- A span that memory has holds the bytes from the index on, and begins there unless it is empty.
-/
theorem read_of_within {m : Machine} {length : Nat} {span : Span} (short : length ≤ 16)
    (found : Span.within m.index (UInt64.ofNat length) = .ok span) :
    m.memory.read span = m.bytesAt length ∧ (0 < length → span.start = m.index.toNat) := by
  rw [Span.within_ofNat m.index length short] at found
  split at found
  next empty =>
    subst empty
    cases found
    -- Wherever an empty span lies, it holds nothing.
    refine ⟨?_, nofun⟩
    simp only [Memory.read, bytesAt, Nat.add_zero, Cells.slice_self]
  next filled =>
    split at found
    next inside =>
      cases found
      exact ⟨rfl, fun _ => rfl⟩
    next beyond => cases found

theorem caller_eq (m : Machine) (held : m.sp.toNat - 1 < 16) :
    m.caller = m.stack[m.sp.toNat - 1] := by
  simp [caller, held]

theorem stackAfter_call (m : Machine) (target : Address) (room : m.sp.toNat < 16) :
    m.stackAfter (.call target) = m.stack.set m.sp.toNat m.pc := by
  simp [stackAfter, ← Vector.toArray_inj, Array.setIfInBounds_def, room]

end Machine

namespace Instruction

/-- Case by case, what an instruction leaves is its outcome. -/
theorem eq_outcome_of_apply {instruction : Instruction} {random : UInt8} {m after : Machine}
    (applied : instruction.apply random m = .ok after) :
    after = m.outcome random instruction := by
  cases instruction with
  | ret =>
    obtain ⟨-, held, rfl⟩ := (m.leave_eq_ok_iff after).mp applied
    rw [← m.caller_eq held]
    rfl
  | call target =>
    obtain ⟨room, rfl⟩ := (m.enter_eq_ok_iff after target).mp applied
    rw [← m.stackAfter_call target room]
    rfl
  | skip condition =>
    simp only [apply, Machine.skipIf_eq, Except.ok.injEq] at applied
    exact applied.symm
  | arithmetic operation x y =>
    obtain ⟨registers, same⟩ := m.calculate_eq operation x y
    simp only [apply, Except.ok.injEq] at applied
    rw [← applied]
    simp only [Machine.outcome, Machine.registersAfter, same]
    rfl
  | draw x y rows =>
    -- An instruction that works on a span succeeds only if memory has the whole span.
    obtain ⟨span, found, done⟩ := (bind_eq_ok_iff _ _ _).mp applied
    obtain ⟨bytes, -⟩ := Machine.read_of_within (by omega) found
    cases done
    rw [bytes]
    rfl
  | decimal x =>
    -- A span that is not empty starts at the index, so the writes go there.
    obtain ⟨span, found, done⟩ := (bind_eq_ok_iff _ _ _).mp applied
    obtain ⟨-, start⟩ := Machine.read_of_within (show 3 ≤ 16 by decide) found
    cases done
    rw [Memory.write, start (by decide)]
    rfl
  | save x =>
    obtain ⟨span, found, done⟩ := (bind_eq_ok_iff _ _ _).mp applied
    obtain ⟨-, start⟩ := Machine.read_of_within (by omega) found
    cases done
    rw [Memory.write, start (Nat.succ_pos _)]
    rfl
  | restore x =>
    obtain ⟨span, found, done⟩ := (bind_eq_ok_iff _ _ _).mp applied
    obtain ⟨bytes, -⟩ := Machine.read_of_within (by omega) found
    cases done
    rw [bytes]
    rfl
  | _ =>
    cases applied
    rfl

theorem apply_eq_ok_iff (instruction : Instruction) (random : UInt8) (m after : Machine) :
    instruction.apply random m = .ok after ↔
      m.fault? instruction = none ∧ after = m.outcome random instruction := by
  constructor
  · intro applied
    refine ⟨?_, eq_outcome_of_apply applied⟩
    cases stopped : m.fault? instruction with
    | none => rfl
    | some fault =>
      have failed := (instruction.apply_eq_error_iff random m fault).mpr stopped
      rw [failed] at applied
      cases applied
  · rintro ⟨free, rfl⟩
    cases applied : instruction.apply random m with
    | ok found => rw [eq_outcome_of_apply applied]
    | error fault =>
      have stopped := (instruction.apply_eq_error_iff random m fault).mp applied
      rw [free] at stopped
      cases stopped

end Instruction

namespace Machine

@[simp] theorem resume_redraw (m : Machine) (instruction : Instruction) :
    (m.resume instruction).redraw = m.redraw := by
  cases instruction <;> rfl

@[simp] theorem resume_pressed (m : Machine) (instruction : Instruction) :
    (m.resume instruction).pressed = m.pressed := by
  cases instruction <;> rfl

/-- Executing an opcode is looking it up, finding that nothing stops its instruction, and leaving
the outcome. -/
theorem execute_eq_ok_iff (m after : Machine) (random : UInt8) (op : Opcode)
    (instruction : Instruction) :
    m.execute random op = .ok (instruction, after) ↔
      op.decode = .ok instruction ∧ m.fault? instruction = none ∧
        after = m.outcome random instruction := by
  simp only [execute, bind_eq_ok_iff, pure, Except.pure, Except.ok.injEq, Prod.mk.injEq]
  constructor
  · rintro ⟨found, decoded, done, applied, rfl, rfl⟩
    exact ⟨decoded, (Instruction.apply_eq_ok_iff _ _ _ _).mp applied⟩
  · rintro ⟨decoded, passes⟩
    exact ⟨instruction, decoded, after, (Instruction.apply_eq_ok_iff _ _ _ _).mpr passes, rfl, rfl⟩

theorem screenAfter_of_not_draws (m : Machine) {instruction : Instruction}
    (still : instruction.draws = false) : m.screenAfter instruction = m.screen := by
  cases instruction with
  | clear | draw => cases still
  | _ => rfl

/-- A step leaves the outcome of its instruction, with the program counter past a call that is
returned to. -/
theorem eq_outcome_of_step {m after : Machine} {random : UInt8} {instruction : Instruction}
    (stepped : m.step random = .ok (some (instruction, after))) :
    after = (m.outcome random instruction).resume instruction := by
  obtain ⟨-, op, -, -, applied, works, rfl⟩ := (m.step_eq_some_iff _ _ _).mp stepped
  rw [Instruction.eq_outcome_of_apply works]

end Machine

end Chip8
