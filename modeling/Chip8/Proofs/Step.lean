import Chip8.Console.Input
import Chip8.Proofs.Effect

/-!
# What an input does to a console

A step fetches, decodes, applies and resumes, and each of the four can be read off its result. From
this, `perform_performed` lists all that an input can do: execute an instruction, take one back,
edit the machine, or leave the history, the stack, the program counter and the screen alone.
-/

namespace Chip8

namespace Machine

@[simp] theorem resume_sp (m : Machine) (instruction : Instruction) :
    (m.resume instruction).sp = m.sp := by
  cases instruction <;> rfl

@[simp] theorem resume_stack (m : Machine) (instruction : Instruction) :
    (m.resume instruction).stack = m.stack := by
  cases instruction <;> rfl

@[simp] theorem resume_screen (m : Machine) (instruction : Instruction) :
    (m.resume instruction).screen = m.screen := by
  cases instruction <;> rfl

@[simp] theorem resume_awaiting (m : Machine) (instruction : Instruction) :
    (m.resume instruction).awaiting = m.awaiting := by
  cases instruction <;> rfl

theorem pc_le_of_fetch {m : Machine} {op : Opcode} (fetched : m.fetch = .ok op) :
    m.pc.toNat ≤ 0xFFE := by
  unfold fetch at fetched
  split at fetched
  next room => omega
  next => cases fetched

theorem step_eq_none_iff (m : Machine) (random : UInt8) :
    m.step random = .ok none ↔ m.awaiting.isSome := by
  unfold step
  split
  next waits => simp [waits]
  next ready => simp [bind_eq_ok_iff, pure, Except.pure, ready]

theorem step_eq_some_iff (m after : Machine) (random : UInt8) (instruction : Instruction) :
    m.step random = .ok (some (instruction, after)) ↔
      m.awaiting.isSome = false ∧ ∃ op, m.fetch = .ok op ∧ op.decode = .ok instruction ∧
        ∃ applied, instruction.apply random m = .ok applied ∧
          applied.resume instruction = after := by
  unfold step
  split
  next waits => simp [waits]
  next ready =>
    simp only [cycle, execute, bind_eq_ok_iff, pure, Except.pure, ready]
    grind

theorem step_eq_error_iff (m : Machine) (random : UInt8) (fault : Fault) :
    m.step random = .error fault ↔ m.awaiting.isSome = false ∧
      (m.fetch = .error fault ∨ ∃ op, m.fetch = .ok op ∧ m.execute random op = .error fault) := by
  unfold step
  split
  next waits => simp [waits]
  next ready => simp [cycle, bind_eq_error_iff, pure, Except.pure, ready]

/-- A machine that differs from another in nothing that steers or shows it, but that it may no
longer wait for a key. -/
structure Undisturbed (m after : Machine) : Prop where
  pc : after.pc = m.pc
  sp : after.sp = m.sp
  stack : after.stack = m.stack
  screen : after.screen = m.screen
  awaiting : after.awaiting = m.awaiting ∨ after.awaiting = none

theorem Undisturbed.refl (m : Machine) : m.Undisturbed m :=
  ⟨rfl, rfl, rfl, rfl, .inl rfl⟩

/-- A key that goes down may end a wait; besides, it concerns the keypad and a register. -/
theorem press_changes (m : Machine) (key : UInt8) :
    ∃ registers pressed awaiting, (m.press key).1 = { m with registers, pressed, awaiting } ∧
      (awaiting = m.awaiting ∨ awaiting = none) := by
  unfold press
  split
  next known =>
    unfold deliver
    split
    · exact ⟨_, _, _, rfl, .inl rfl⟩
    · dsimp only
      -- The wait ends whether or not the register exists.
      split
      · exact ⟨_, _, _, rfl, .inr rfl⟩
      · exact ⟨_, _, _, rfl, .inr rfl⟩
  next unknown => exact ⟨_, _, _, rfl, .inl rfl⟩

theorem release_changes (m : Machine) (key : UInt8) :
    ∃ pressed, (m.release key).1 = { m with pressed } := by
  unfold release
  split
  · exact ⟨_, rfl⟩
  · exact ⟨_, rfl⟩

theorem press_undisturbed (m : Machine) (key : UInt8) : m.Undisturbed (m.press key).1 := by
  obtain ⟨registers, pressed, awaiting, same, ended⟩ := m.press_changes key
  rw [same]
  exact ⟨rfl, rfl, rfl, rfl, ended⟩

theorem release_undisturbed (m : Machine) (key : UInt8) : m.Undisturbed (m.release key).1 := by
  obtain ⟨pressed, same⟩ := m.release_changes key
  rw [same]
  exact ⟨rfl, rfl, rfl, rfl, .inl rfl⟩

end Machine

namespace Console

/-- What an input does to a console, with the instruction that it executes, if any. -/
inductive Performed (c : Console) (random : UInt8) :
    Input → Option Instruction → Console → Prop
  | executed {instruction : Instruction} {after : Machine}
      (stepped : c.machine.step random = .ok (some (instruction, after))) :
      Performed c random .step (some instruction) (c.advance after)
  | takenBack {latest : Machine} {older : List Machine} (history : c.history = latest :: older) :
      Performed c random .rewind none ⟨{ latest with redraw := true }, older⟩
  | atBeginning (history : c.history = []) : Performed c random .rewind none c
  | edited (change : Machine → Machine) :
      Performed c random (.edit change) none ⟨change c.machine, c.history⟩
  | undisturbed {input : Input} {machine : Machine} (forward : input ≠ .rewind)
      (same : c.machine.Undisturbed machine) :
      Performed c random input none ⟨machine, c.history⟩

/-- Every input does one of these things. -/
theorem perform_performed (c : Console) (random : UInt8) (input : Input) :
    c.Performed random input (c.perform random input).answer.executed?
      (c.perform random input).console := by
  have still : c.machine.Undisturbed c.machine := .refl _
  cases input with
  | load pieces =>
    simp only [perform, load]
    cases Rom.read pieces with
    | error cause => exact .undisturbed (by simp) still
    | ok bytes => exact .undisturbed (by simp) ⟨rfl, rfl, rfl, rfl, .inl rfl⟩
  | step =>
    simp only [perform, step]
    -- Neither a fault nor a wait changes anything.
    cases stepped : c.machine.step random with
    | error fault => exact .undisturbed (by simp) still
    | ok result =>
      rcases result with _ | ⟨instruction, after⟩
      · exact .undisturbed (by simp) still
      · exact .executed stepped
  | press key => exact .undisturbed (by simp) (c.machine.press_undisturbed key)
  | release key => exact .undisturbed (by simp) (c.machine.release_undisturbed key)
  | tick => exact .undisturbed (by simp) ⟨rfl, rfl, rfl, rfl, .inl rfl⟩
  | rewind =>
    simp only [perform, rewind]
    cases history : c.history with
    | nil => exact .atBeginning history
    | cons latest older => exact .takenBack history
  | markShown => exact .undisturbed (by simp) ⟨rfl, rfl, rfl, rfl, .inl rfl⟩
  | edit change => exact .edited change

theorem step_executed {c : Console} {random : UInt8} {instruction : Instruction}
    (executed : (c.step random).answer = .ok (some instruction)) :
    ∃ after, c.machine.step random = .ok (some (instruction, after)) ∧
      (c.step random).console = c.advance after := by
  unfold step at executed ⊢
  cases stepped : c.machine.step random with
  | error fault => simp [stepped] at executed
  | ok result =>
    rcases result with _ | ⟨found, after⟩
    · simp [stepped] at executed
    · simp only [stepped, Except.ok.injEq, Option.some.injEq] at executed
      exact ⟨after, by rw [executed], rfl⟩

end Console

end Chip8
