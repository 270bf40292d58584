import Chip8.Proofs.Run
import Chip8.Proofs.Step

/-!
# What holds of every console that was only used through its interface

A program can jump anywhere in memory and rewrite itself, but it cannot leave certain bounds. The
bounds on the program counter need those on the stack, since a return goes where a slot says, and
bounds on the history, since a state taken back becomes the current one. Past states satisfy more
than the current one does: each of them went on to execute an instruction.

## Main result

`run_sound`: after any inputs other than edits the bounds hold of the machine and of its history.
Hence no return finds a stack pointer beyond the stack, no key is meant for an unknown register,
and the program counter never wraps around.
-/

namespace Chip8

/-! ### Screens -/

def Screen.Binary (screen : Screen) : Prop :=
  ∀ cell : Fin 2048, screen.get cell = 0 ∨ screen.get cell = 1

theorem Screen.blank_binary : Screen.blank.Binary := by
  intro cell
  left
  simp [Screen.blank, Cells.get_eq_getElem]

theorem Screen.Binary.flip {screen : Screen} (binary : screen.Binary) (target : Fin 2048) :
    (screen.flip target).Binary := by
  intro cell
  -- A single flip is a list of one.
  have flipped := get_flips screen [target] (by simp) cell
  simp only [List.foldl_cons, List.foldl_nil] at flipped
  rw [flipped]
  split
  · rcases binary cell with off | on
    · right; rw [off]; rfl
    · left; rw [on]; rfl
  · exact binary cell

theorem Screen.Binary.draw {screen : Screen} (binary : screen.Binary) (x y : UInt8)
    (sprite : List UInt8) : (screen.draw x y sprite).Binary := by
  unfold Screen.draw
  generalize targets x.toNat y.toNat sprite = cells
  induction cells generalizing screen with
  | nil => exact binary
  | cons cell rest ih => exact ih (binary.flip cell)

/-! ### Machines -/

namespace Machine

/-- The bounds of a machine that was only used through its interface. -/
structure Bounded (m : Machine) : Prop where
  sp_le : m.sp.toNat ≤ 16
  pc_le : m.pc.toNat ≤ 0x10FE
  /-- Used slots and stale ones alike. -/
  stack_le : ∀ slot (inside : slot < 16), m.stack[slot].toNat ≤ 0xFFE
  screen_binary : m.screen.Binary
  awaiting_le : ∀ register, m.awaiting = some register → register.toNat ≤ 15

/-- The bounds of a state that was left by executing an instruction. -/
structure Executable (m : Machine) : Prop extends m.Bounded where
  ready : m.awaiting = none
  pc_le_end : m.pc.toNat ≤ 0xFFE
  decodes : ∃ op instruction, m.fetch = .ok op ∧ op.decode = .ok instruction

theorem initial_bounded : initial.Bounded where
  sp_le := by decide
  pc_le := by decide
  stack_le slot inside := by simp [initial]
  screen_binary := Screen.blank_binary
  awaiting_le register waits := by cases waits

theorem Bounded.undisturbed {m after : Machine} (bounded : m.Bounded)
    (same : m.Undisturbed after) : after.Bounded where
  sp_le := same.sp ▸ bounded.sp_le
  pc_le := same.pc ▸ bounded.pc_le
  stack_le := same.stack ▸ bounded.stack_le
  screen_binary := same.screen ▸ bounded.screen_binary
  awaiting_le register waits := by
    rcases same.awaiting with kept | none
    · exact bounded.awaiting_le register (kept ▸ waits)
    · simp [none] at waits

/-- Where a cycle leads, counted without wrapping. -/
def goal (m : Machine) : Instruction → Nat
  | .ret => m.caller.toNat + 2
  | .jump target | .call target => target.val
  | .jumpOffset target => (m.register Nibble.first).toNat + target.val
  | .skip condition => m.pc.toNat + if condition.holds m then 4 else 2
  | _ => m.pc.toNat + 2

theorem Bounded.caller_le {m : Machine} (bounded : m.Bounded) : m.caller.toNat ≤ 0xFFE := by
  unfold caller
  by_cases inside : m.sp.toNat - 1 < 16
  · simpa [inside] using bounded.stack_le _ inside
  · simp [inside]

theorem Bounded.goal_le {m : Machine} (bounded : m.Bounded) (low : m.pc.toNat ≤ 0xFFE)
    (instruction : Instruction) : m.goal instruction ≤ 0x10FE := by
  have caller := bounded.caller_le
  have offset := (m.register Nibble.first).toNat_lt
  cases instruction with
  | ret => simp only [goal]; omega
  | jump target | call target => simp only [goal]; omega
  | jumpOffset target => simp only [goal]; omega
  | skip condition => simp only [goal]; split <;> omega
  | _ => simp only [goal]; omega

theorem Bounded.resume_pc {m applied : Machine} {instruction : Instruction} (bounded : m.Bounded)
    (low : m.pc.toNat ≤ 0xFFE) (changes : m.Changes instruction applied) :
    (applied.resume instruction).pc.toNat = m.goal instruction := by
  have caller := bounded.caller_le
  have offset := (m.register Nibble.first).toNat_lt
  have pc := changes.pc
  cases instruction with
  -- Bounds on the slots keep the sum of a return small, those on the first register a jump.
  | ret =>
    simp only [resume, next, pc, target, goal, UInt16.toNat_add]
    have : (2 : UInt16).toNat = 2 := rfl
    omega
  | jump target | call target =>
    simp only [resume, pc, Machine.target, goal, UInt16.toNat_ofNat']
    omega
  | jumpOffset target =>
    simp only [resume, pc, Machine.target, goal, UInt16.toNat_ofNat']
    omega
  | skip condition =>
    simp only [resume, pc, target, goal, UInt16.toNat_add]
    split
    · have : (4 : UInt16).toNat = 4 := rfl
      omega
    · have : (2 : UInt16).toNat = 2 := rfl
      omega
  | _ =>
    simp only [resume, pc, target, goal, UInt16.toNat_add]
    have : (2 : UInt16).toNat = 2 := rfl
    omega

theorem Bounded.spAfter_le {m applied : Machine} {random : UInt8} {instruction : Instruction}
    (bounded : m.Bounded) (works : instruction.apply random m = .ok applied) :
    (m.spAfter instruction).toNat ≤ 16 := by
  cases instruction with
  | call target =>
    obtain ⟨room, -⟩ := (m.enter_eq_ok_iff applied target).mp works
    rw [m.toNat_spAfter_call target room]
    exact room
  | ret =>
    obtain ⟨above, -⟩ := (m.leave_eq_ok_iff applied).mp works
    have low := bounded.sp_le
    rw [m.toNat_spAfter_ret above]
    omega
  | _ => exact bounded.sp_le

theorem Bounded.stackAfter_le {m : Machine} (bounded : m.Bounded) (low : m.pc.toNat ≤ 0xFFE)
    (instruction : Instruction) (slot : Nat) (inside : slot < 16) :
    (m.stackAfter instruction)[slot].toNat ≤ 0xFFE := by
  cases instruction with
  | call target =>
    simp only [stackAfter, Vector.getElem_setIfInBounds]
    -- The slot written holds the place of the call, from where an opcode was fetched.
    split
    · exact low
    · exact bounded.stack_le slot inside
  | _ => exact bounded.stack_le slot inside

theorem Bounded.screen_changes {m applied : Machine} {instruction : Instruction}
    (bounded : m.Bounded) (changes : m.Changes instruction applied) : applied.screen.Binary := by
  rcases changes.screen with blank | same | ⟨x, y, sprite, drawn⟩
  · exact blank ▸ Screen.blank_binary
  · exact same ▸ bounded.screen_binary
  · exact drawn ▸ bounded.screen_binary.draw x y sprite

theorem awaitingAfter_le {m : Machine} (ready : m.awaiting = none) (instruction : Instruction)
    (register : UInt8) (waits : m.awaitingAfter instruction = some register) :
    register.toNat ≤ 15 := by
  cases instruction with
  | awaitKey x =>
    cases waits
    simp only [UInt8.toNat_ofNat']
    omega
  | _ => simp [awaitingAfter, ready] at waits

/-- A step that executes an instruction starts in an executable state and stays in the bounds. -/
theorem Bounded.step {m after : Machine} {random : UInt8} {instruction : Instruction}
    (bounded : m.Bounded) (stepped : m.step random = .ok (some (instruction, after))) :
    m.Executable ∧ after.Bounded ∧ after.pc.toNat = m.goal instruction := by
  obtain ⟨still, op, fetched, decoded, applied, works, rfl⟩ :=
    (m.step_eq_some_iff after random instruction).mp stepped
  have low := pc_le_of_fetch fetched
  have changes := Instruction.apply_changes works
  have pc := bounded.resume_pc low changes
  have ready : m.awaiting = none := by simpa using still
  refine ⟨⟨bounded, ready, low, op, instruction, fetched, decoded⟩, ?_, pc⟩
  constructor
  · rw [resume_sp, changes.sp]
    exact bounded.spAfter_le works
  · rw [pc]
    exact bounded.goal_le low instruction
  · intro slot inside
    simp only [resume_stack, changes.stack]
    exact bounded.stackAfter_le low instruction slot inside
  · rw [resume_screen]
    exact bounded.screen_changes changes
  · intro register waits
    rw [resume_awaiting, changes.awaiting] at waits
    exact awaitingAfter_le ready instruction register waits

theorem Bounded.leave_ne_stackOverflow {m : Machine} (bounded : m.Bounded) (pc : UInt16) :
    m.leave ≠ .error (.stackOverflow pc) := by
  have low := bounded.sp_le
  unfold leave
  split
  · simp
  · split
    · simp
    next beyond => omega

theorem Bounded.droppedKey_notMem {m : Machine} (bounded : m.Bounded) (key pressed : UInt8)
    (register : UInt8) : .droppedKey pressed register ∉ (m.press key).2 := by
  unfold press
  split
  · unfold deliver
    split
    · simp
    next found waits =>
      have known : found.toNat < 16 := Nat.lt_succ_of_le (bounded.awaiting_le found waits)
      simp [known]
  · simp

end Machine

/-! ### Consoles -/

namespace Console

structure Sound (c : Console) : Prop where
  machine : c.machine.Bounded
  history_length : c.history.length ≤ 600
  history : ∀ m ∈ c.history, m.Executable

theorem initial_sound : initial.Sound where
  machine := Machine.initial_bounded
  history_length := by simp [initial]
  history m member := by simp [initial] at member

theorem Sound.perform {c : Console} (sound : c.Sound) (random : UInt8) (input : Input)
    (plain : input.isEdit = false) : (c.perform random input).console.Sound := by
  have performed := c.perform_performed random input
  generalize (c.perform random input).answer.executed? = executed at performed
  generalize (c.perform random input).console = after at performed
  cases performed with
  | executed stepped =>
    -- The state left behind has just executed an instruction.
    obtain ⟨executable, bounded, -⟩ := sound.machine.step stepped
    refine ⟨bounded, List.length_take_le _ _, fun m member => ?_⟩
    rcases List.mem_cons.mp (List.mem_of_mem_take member) with rfl | past
    · exact executable
    · exact sound.history m past
  | takenBack history =>
    have members := sound.history
    have length := sound.history_length
    rw [history] at members length
    -- A past state satisfies more than it has to as the current one.
    have latest := members _ List.mem_cons_self
    refine ⟨⟨latest.sp_le, latest.pc_le, latest.stack_le, latest.screen_binary, latest.awaiting_le⟩,
      ?_, fun m member => members m (List.mem_cons_of_mem _ member)⟩
    exact Nat.le_of_succ_le length
  | atBeginning history => exact sound
  | edited change => cases plain
  | undisturbed forward same =>
    exact ⟨sound.machine.undisturbed same, sound.history_length, sound.history⟩

/-- Whatever is done to a console through its interface, the bounds hold of it. No return then
finds a stack pointer beyond the stack, no key is meant for an unknown register, and the program
counter is the exact sum that an instruction asks for. -/
theorem run_sound (dice : Dice) (inputs : List Input)
    (plain : ∀ input ∈ inputs, input.isEdit = false) :
    let c := (initial.run dice inputs).console
    c.Sound ∧ (∀ pc, c.machine.leave ≠ .error (.stackOverflow pc)) ∧
      (∀ key pressed register, .droppedKey pressed register ∉ (c.press key).records) ∧
      ∀ random instruction after, c.machine.step random = .ok (some (instruction, after)) →
        after.pc.toNat = c.machine.goal instruction := by
  have sound : (initial.run dice inputs).console.Sound :=
    run_keeps Sound (fun input => input.isEdit = false)
      (fun c random input allowed kept => kept.perform random input allowed)
      initial dice inputs plain initial_sound
  refine ⟨sound, sound.machine.leave_ne_stackOverflow, sound.machine.droppedKey_notMem, ?_⟩
  intro random instruction after stepped
  exact (sound.machine.step stepped).2.2

/-- A program calls a subroutine, which waits for a key and returns, and jumps out of memory. It is
taken back to the end of the subroutine, where the key has been pressed and none is awaited. -/
theorem run_sound_taken_back :
    let inputs : List Input := [.load [.bytes [0x22, 0x04, 0xBF, 0xFF, 0xF0, 0x0A, 0x00, 0xEE]],
      .step, .step, .press 0xF, .step, .step, .rewind, .rewind]
    (∀ input ∈ inputs, input.isEdit = false) ∧ (initial.run (.ofList []) inputs).console.Sound := by
  intro inputs
  have plain : ∀ input ∈ inputs, input.isEdit = false := by decide
  exact ⟨plain, (run_sound (.ofList []) inputs plain).1⟩

end Console

end Chip8
