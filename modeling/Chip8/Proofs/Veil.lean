import Chip8.Proofs.Outcome

/-!
# What a step does not look at

Two machines are abreast if a step cannot tell them apart before it does its work. They execute the
same instruction or fail in the same way, whatever else they differ in.

A veil hides a part of a machine that neither the fetch nor any check looks at. Two machines that
look the same through a veil are abreast, and they look the same after a step unless the
instruction brings the hidden part to light.

Two veils are of use. The timers come to light by the one instruction that reads the delay, and
whether there is a frame to show comes to light by none.
-/

namespace Chip8

/-- What can be seen through a veil is the same for all that looks the same. -/
theorem view_eq {α β : Type} {hide : α → α} {view : α → β} (seen : ∀ a, view (hide a) = view a)
    {a b : α} (same : hide a = hide b) : view a = view b := by
  rw [← seen a, same, seen b]

/-- Whether an instruction keeps hidden what a veil hides. -/
def Instruction.Overlooks (hide : Machine → Machine) (instruction : Instruction) : Prop :=
  ∀ random m, hide ((hide m).outcome random instruction) = hide (m.outcome random instruction)

theorem Instruction.Overlooks.outcome_eq {hide : Machine → Machine} {instruction : Instruction}
    (overlooks : instruction.Overlooks hide) {m n : Machine} (same : hide m = hide n)
    (random : UInt8) :
    hide (m.outcome random instruction) = hide (n.outcome random instruction) := by
  rw [← overlooks random m, same, overlooks random n]

/-- The random byte matters to instructions that roll, and to no others. -/
theorem Instruction.outcome_eq_of_rolled {instruction : Instruction} {random other : UInt8}
    (rolled : instruction.rolls = true → other = random) (m : Machine) :
    m.outcome other instruction = m.outcome random instruction := by
  cases instruction with
  | random => rw [rolled rfl]
  | _ => rfl

/-! ### Machines at the same place -/

namespace Machine

/-- Two machines that a step cannot tell apart before it does its work. -/
structure Abreast (m n : Machine) : Prop where
  awaiting : n.awaiting = m.awaiting
  fetch : n.fetch = m.fetch
  fault? : n.fault? = m.fault?

namespace Abreast

variable {m n : Machine} (abreast : m.Abreast n) {random : UInt8} (other : UInt8)

include abreast

theorem step_error {fault : Fault} (stopped : m.step random = .error fault) :
    n.step other = .error fault := by
  rw [step_eq_error_iff] at stopped ⊢
  rw [abreast.awaiting, abreast.fetch]
  refine stopped.imp_right (Or.imp_right ?_)
  rintro ⟨op, fetched, refused⟩
  refine ⟨op, fetched, ?_⟩
  rw [execute_eq_error_iff_fault?] at refused ⊢
  rw [abreast.fault?]
  exact refused

theorem step_none (waits : m.step random = .ok none) : n.step other = .ok none := by
  rw [step_eq_none_iff] at waits ⊢
  rw [abreast.awaiting]
  exact waits

/-- Both execute the same instruction, each from where it stands. -/
theorem step_some {instruction : Instruction} {after : Machine}
    (stepped : m.step random = .ok (some (instruction, after))) :
    n.step other = .ok (some (instruction, (n.outcome other instruction).resume instruction)) := by
  obtain ⟨ready, op, fetched, decoded, applied, works, -⟩ := (m.step_eq_some_iff _ _ _).mp stepped
  obtain ⟨free, -⟩ := (instruction.apply_eq_ok_iff random m applied).mp works
  refine (n.step_eq_some_iff _ _ _).mpr ⟨?_, op, ?_, decoded, n.outcome other instruction, ?_, rfl⟩
  · rw [abreast.awaiting]
    exact ready
  · rw [abreast.fetch]
    exact fetched
  · refine (instruction.apply_eq_ok_iff other n _).mpr ⟨?_, rfl⟩
    rw [abreast.fault?]
    exact free

end Abreast

theorem free_of_step {m after : Machine} {random : UInt8} {instruction : Instruction}
    (stepped : m.step random = .ok (some (instruction, after))) : m.fault? instruction = none := by
  obtain ⟨-, op, -, -, applied, works, -⟩ := (m.step_eq_some_iff _ _ _).mp stepped
  exact ((instruction.apply_eq_ok_iff random m applied).mp works).1

end Machine

namespace Console

theorem step_records (c : Console) (random : UInt8) : (c.step random).records = c.machine.told := by
  unfold step
  split <;> rfl

theorem step_of_free {c : Console} (ready : c.machine.awaiting = none) {op : Opcode}
    {instruction : Instruction} (fetched : c.machine.fetch = .ok op)
    (decoded : op.decode = .ok instruction) (free : c.machine.fault? instruction = none)
    (random : UInt8) : (c.step random).answer = .ok (some instruction) := by
  have works := (instruction.apply_eq_ok_iff random c.machine _).mpr ⟨free, rfl⟩
  have stepped := (c.machine.step_eq_some_iff _ random instruction).mpr
    ⟨by rw [ready]; rfl, op, fetched, decoded, _, works, rfl⟩
  simp only [step, stepped]

/-- Consoles whose machines are abreast give the same answer to a step. Either neither moves, or
both move on to what the same instruction leaves. -/
theorem step_abreast {c d : Console} (abreast : c.machine.Abreast d.machine) (random : UInt8) :
    (d.step random).answer = (c.step random).answer ∧
      ((∀ instruction, (c.step random).answer ≠ .ok (some instruction)) ∧
          (c.step random).console = c ∧ (d.step random).console = d ∨
        ∃ instruction, (c.step random).answer = .ok (some instruction) ∧
          c.machine.fault? instruction = none ∧
          (c.step random).console =
            c.advance ((c.machine.outcome random instruction).resume instruction) ∧
          (d.step random).console =
            d.advance ((d.machine.outcome random instruction).resume instruction)) := by
  unfold step
  cases stepped : c.machine.step random with
  | error fault =>
    rw [abreast.step_error random stepped]
    exact ⟨rfl, .inl ⟨by simp, rfl, rfl⟩⟩
  | ok result =>
    rcases result with _ | ⟨instruction, after⟩
    · rw [abreast.step_none random stepped]
      exact ⟨rfl, .inl ⟨by simp, rfl, rfl⟩⟩
    · rw [abreast.step_some random stepped, Machine.eq_outcome_of_step stepped]
      exact ⟨rfl, .inr ⟨instruction, rfl, Machine.free_of_step stepped, rfl, rfl⟩⟩

end Console

/-! ### Veils -/

namespace Machine

/-- Hides a part of a machine, but none that steers it. -/
structure Veil (hide : Machine → Machine) : Prop where
  registers (m : Machine) : (hide m).registers = m.registers
  index (m : Machine) : (hide m).index = m.index
  pc (m : Machine) : (hide m).pc = m.pc
  sp (m : Machine) : (hide m).sp = m.sp
  memory (m : Machine) : (hide m).memory = m.memory
  awaiting (m : Machine) : (hide m).awaiting = m.awaiting
  next (m : Machine) : hide m.next = (hide m).next

namespace Veil

variable {hide : Machine → Machine} (veil : Veil hide)

include veil

theorem fetch (m : Machine) : (hide m).fetch = m.fetch := by
  unfold Machine.fetch
  simp only [veil.pc, veil.memory]

theorem told (m : Machine) : (hide m).told = m.told := by
  unfold Machine.told
  simp only [veil.fetch, veil.registers, veil.index, veil.pc, veil.sp, veil.awaiting]

theorem fault? (m : Machine) : (hide m).fault? = m.fault? := by
  funext instruction
  cases instruction <;> simp only [Machine.fault?, missing?, veil.index, veil.pc, veil.sp]

theorem resume (m : Machine) (instruction : Instruction) :
    hide (m.resume instruction) = (hide m).resume instruction := by
  cases instruction with
  | ret => exact veil.next m
  | _ => rfl

/-- What can be seen of a machine is all that a step looks at before it does its work. -/
theorem abreast {m n : Machine} (same : hide m = hide n) : m.Abreast n where
  awaiting := view_eq veil.awaiting same.symm
  fetch := view_eq veil.fetch same.symm
  fault? := view_eq veil.fault? same.symm

/-- The same instruction is executed, and what is hidden stays hidden. -/
theorem step_some {m n : Machine} (same : hide m = hide n) {random : UInt8} (other : UInt8)
    {instruction : Instruction} {after : Machine}
    (stepped : m.step random = .ok (some (instruction, after)))
    (overlooks : instruction.Overlooks hide)
    (rolled : instruction.rolls = true → other = random) :
    ∃ last, n.step other = .ok (some (instruction, last)) ∧ hide after = hide last := by
  refine ⟨_, (veil.abreast same).step_some other stepped, ?_⟩
  rw [eq_outcome_of_step stepped, Instruction.outcome_eq_of_rolled rolled n, veil.resume,
    veil.resume, overlooks.outcome_eq same random]

end Veil

/-! ### Two veils -/

/-- Hides the timers. -/
def untimed (m : Machine) : Machine :=
  { m with delay := 0, sound := 0 }

/-- Hides whether there is a frame to show: there is one. -/
def due (m : Machine) : Machine :=
  { m with redraw := true }

theorem untimed_veil : Veil untimed :=
  ⟨fun _ => rfl, fun _ => rfl, fun _ => rfl, fun _ => rfl, fun _ => rfl, fun _ => rfl, fun _ => rfl⟩

theorem due_veil : Veil due :=
  ⟨fun _ => rfl, fun _ => rfl, fun _ => rfl, fun _ => rfl, fun _ => rfl, fun _ => rfl, fun _ => rfl⟩

end Machine

namespace Instruction

/-- Only the instruction that reads the delay brings a timer to light. -/
theorem overlooks_untimed {instruction : Instruction} (blind : ∀ x, instruction ≠ .readDelay x) :
    instruction.Overlooks Machine.untimed := by
  intro random m
  cases instruction with
  | readDelay x => exact absurd rfl (blind x)
  | skip condition => cases condition <;> rfl
  | arithmetic operation x y => cases operation <;> rfl
  | _ => rfl

theorem overlooks_due (instruction : Instruction) : instruction.Overlooks Machine.due := by
  intro random m
  cases instruction with
  | skip condition => cases condition <;> rfl
  | arithmetic operation x y => cases operation <;> rfl
  | _ => rfl

end Instruction

namespace Console

/-- A console through a veil, its past states included. -/
def veiled (hide : Machine → Machine) (c : Console) : Console :=
  ⟨hide c.machine, c.history.map hide⟩

end Console

namespace Machine.Veil

/-- Consoles that look the same through a veil make the same step. -/
theorem console_step {hide : Machine → Machine} (veil : Veil hide) {c d : Console}
    (same : c.veiled hide = d.veiled hide) (random : UInt8)
    (overlooked : ∀ instruction, (c.step random).answer = .ok (some instruction) →
      instruction.Overlooks hide) :
    (c.step random).answer = (d.step random).answer ∧
      (c.step random).records = (d.step random).records ∧
      (c.step random).console.veiled hide = (d.step random).console.veiled hide := by
  have machine : hide c.machine = hide d.machine := congrArg Console.machine same
  have history : c.history.map hide = d.history.map hide := congrArg Console.history same
  have told : (c.step random).records = (d.step random).records := by
    rw [Console.step_records, Console.step_records]
    exact view_eq veil.told machine
  obtain ⟨answer, stood | ⟨instruction, executed, -, after, last⟩⟩ :=
    Console.step_abreast (veil.abreast machine) random
  · obtain ⟨-, stays, remains⟩ := stood
    rw [stays, remains]
    exact ⟨answer.symm, told, same⟩
  · refine ⟨answer.symm, told, ?_⟩
    have alike := (overlooked instruction executed).outcome_eq machine random
    simp only [after, last, Console.advance, Console.veiled, List.map_take, List.map_cons,
      veil.resume, alike, machine, history]

end Machine.Veil

end Chip8
