import Chip8.Proofs.Run
import Chip8.Proofs.Veil
import Mathlib.Data.List.Forall2

/-!
# What never comes back to light

The sound timer and whether there is a frame to show are there for whoever looks at a console, and a
slot of the stack that is not in use is written before it is read again. None of them is ever looked
at by what a console does. Which slots are in use moves with the stack pointer: a call writes the
slot that it takes into use, and a return reads one that was in use.

## Main result

`run_similar`: consoles that differ in these things alone give the same answers to the same inputs,
use the same random bytes and still differ in these things alone.
-/

namespace Chip8

/-! ### Machines -/

namespace Machine

/-- Machines that agree on everything but the sound timer, whether there is a frame to show, and the
slots of the stack that are not in use. -/
structure Similar (m n : Machine) : Prop where
  registers : n.registers = m.registers
  index : n.index = m.index
  pc : n.pc = m.pc
  sp : n.sp = m.sp
  delay : n.delay = m.delay
  memory : n.memory = m.memory
  screen : n.screen = m.screen
  pressed : n.pressed = m.pressed
  awaiting : n.awaiting = m.awaiting
  /-- The slots below the stack pointer are in use. -/
  stack : ∀ slot (inside : slot < 16), slot < m.sp.toNat → n.stack[slot] = m.stack[slot]

theorem similar_of_used {m : Machine} {sound : UInt8} {redraw : Bool} {stack : Vector UInt16 16}
    (used : ∀ slot (inside : slot < 16), slot < m.sp.toNat → stack[slot] = m.stack[slot]) :
    m.Similar { m with sound, redraw, stack } :=
  ⟨rfl, rfl, rfl, rfl, rfl, rfl, rfl, rfl, rfl, used⟩

theorem similar_iff (m n : Machine) :
    m.Similar n ↔ ∃ sound redraw stack, n = { m with sound, redraw, stack } ∧
      ∀ slot (inside : slot < 16), slot < m.sp.toNat → stack[slot] = m.stack[slot] := by
  constructor
  · intro similar
    obtain ⟨registers, index, pc, sp, delay, memory, screen, pressed, awaiting, stack⟩ := similar
    refine ⟨n.sound, n.redraw, n.stack, ?_, stack⟩
    rw [← registers, ← index, ← pc, ← sp, ← delay, ← memory, ← screen, ← pressed, ← awaiting]
  · rintro ⟨sound, redraw, stack, rfl, used⟩
    exact similar_of_used used

namespace Similar

variable {m n : Machine} (similar : m.Similar n)

include similar

theorem abreast : m.Abreast n := by
  obtain ⟨sound, redraw, stack, rfl, -⟩ := (m.similar_iff n).mp similar
  refine ⟨rfl, rfl, ?_⟩
  funext instruction
  cases instruction <;> rfl

theorem told : n.told = m.told := by
  obtain ⟨sound, redraw, stack, rfl, -⟩ := (m.similar_iff n).mp similar
  rfl

/-- A return reads the topmost slot in use. -/
theorem caller (above : m.sp ≠ 0) : n.caller = m.caller := by
  have positive : m.sp.toNat ≠ 0 := fun zero => above (UInt8.toNat_inj.mp zero)
  unfold Machine.caller
  rw [similar.sp]
  by_cases held : m.sp.toNat - 1 < 16
  · simp only [held, getElem?_pos, similar.stack _ held (by omega)]
  · simp only [held, not_false_iff, getElem?_neg]

/-- A call writes the slot that it takes into use. -/
theorem stackAfter_call (target : Address) (room : m.sp.toNat < 16) :
    ∀ slot (inside : slot < 16), slot < (m.spAfter (.call target)).toNat →
      (n.stackAfter (.call target))[slot] = (m.stackAfter (.call target))[slot] := by
  intro slot inside used
  rw [m.toNat_spAfter_call target room] at used
  simp only [stackAfter, Vector.getElem_setIfInBounds, similar.sp, similar.pc]
  split
  · rfl
  · exact similar.stack slot inside (by omega)

/-- Unless it is stopped, an instruction leaves similar machines similar. -/
theorem outcome {instruction : Instruction} (free : m.fault? instruction = none) (random : UInt8) :
    (m.outcome random instruction).Similar (n.outcome random instruction) := by
  have used := similar.stack
  have caller := similar.caller
  have filled := similar.stackAfter_call
  obtain ⟨sound, redraw, stack, rfl, -⟩ := (m.similar_iff n).mp similar
  cases instruction with
  | ret =>
    have above : m.sp ≠ 0 := by
      intro bottom
      simp [fault?, bottom] at free
    refine ⟨rfl, rfl, caller above, rfl, rfl, rfl, rfl, rfl, rfl, ?_⟩
    intro slot inside below
    have lowered : (m.spAfter .ret).toNat = m.sp.toNat - 1 := m.toNat_spAfter_ret above
    refine used slot inside ?_
    change slot < (m.spAfter .ret).toNat at below
    omega
  | call target =>
    have room : m.sp.toNat < 16 := by
      simpa [fault?] using free
    exact similar_of_used (filled target room)
  -- No other instruction looks at the stack or moves its pointer.
  | skip condition => cases condition <;> exact similar_of_used used
  | arithmetic operation x y => cases operation <;> exact similar_of_used used
  | _ => exact similar_of_used used

theorem resume (instruction : Instruction) :
    (m.resume instruction).Similar (n.resume instruction) := by
  obtain ⟨sound, redraw, stack, rfl, used⟩ := (m.similar_iff n).mp similar
  cases instruction <;> exact similar_of_used used

theorem press (key : UInt8) :
    (n.press key).2 = (m.press key).2 ∧ (m.press key).1.Similar (n.press key).1 := by
  obtain ⟨sound, redraw, stack, rfl, used⟩ := (m.similar_iff n).mp similar
  unfold Machine.press
  split
  · unfold deliver
    dsimp only
    split
    · exact ⟨rfl, similar_of_used used⟩
    · -- The wait ends on both machines, and the same register gets the key.
      split
      · exact ⟨rfl, similar_of_used used⟩
      · exact ⟨rfl, similar_of_used used⟩
  · exact ⟨rfl, similar⟩

theorem release (key : UInt8) :
    (n.release key).2 = (m.release key).2 ∧ (m.release key).1.Similar (n.release key).1 := by
  obtain ⟨sound, redraw, stack, rfl, used⟩ := (m.similar_iff n).mp similar
  unfold Machine.release
  split
  · exact ⟨rfl, similar_of_used used⟩
  · exact ⟨rfl, similar⟩

end Similar

end Machine

/-! ### Consoles -/

namespace Console

/-- Consoles with similar machines and, state by state, similar histories. -/
structure Similar (c d : Console) : Prop where
  machine : c.machine.Similar d.machine
  history : List.Forall₂ Machine.Similar c.history d.history

/-- What an input comes to on similar consoles. -/
structure SameReply (reply other : Reply Answer) : Prop where
  answer : other.answer = reply.answer
  records : other.records = reply.records
  console : reply.console.Similar other.console

namespace Similar

variable {c d : Console} (similar : c.Similar d)

include similar

theorem advance {after last : Machine} (alike : after.Similar last) :
    (c.advance after).Similar (d.advance last) :=
  ⟨alike, List.forall₂_take _ (.cons similar.machine similar.history)⟩

theorem step (random : UInt8) :
    (d.step random).answer = (c.step random).answer ∧
      (d.step random).records = (c.step random).records ∧
      (c.step random).console.Similar (d.step random).console := by
  obtain ⟨answer, moved⟩ := step_abreast similar.machine.abreast random
  refine ⟨answer, ?_, ?_⟩
  · rw [step_records, step_records, similar.machine.told]
  · obtain ⟨-, stays, remains⟩ | ⟨instruction, -, free, after, last⟩ := moved
    · rw [stays, remains]
      exact similar
    · rw [after, last]
      exact similar.advance ((similar.machine.outcome free random).resume instruction)

theorem rewind : c.rewind.Similar d.rewind := by
  obtain ⟨machine, history⟩ := c
  obtain ⟨other, past⟩ := d
  cases similar.history with
  | nil => exact similar
  | cons latest older =>
    refine ⟨?_, older⟩
    obtain ⟨sound, redraw, stack, rfl, used⟩ := (Machine.similar_iff _ _).mp latest
    exact Machine.similar_of_used used

theorem perform (random : UInt8) {input : Input} (plain : input.isEdit = false) :
    SameReply (c.perform random input) (d.perform random input) := by
  obtain ⟨machine, history⟩ := c
  obtain ⟨other, past⟩ := d
  obtain ⟨sound, redraw, stack, rfl, used⟩ := (machine.similar_iff other).mp similar.machine
  cases input with
  | load pieces =>
    simp only [Console.perform, load]
    cases Rom.read pieces with
    | error cause => exact ⟨rfl, rfl, similar⟩
    | ok bytes =>
      exact ⟨rfl, rfl, Machine.similar_of_used used, similar.history⟩
  | step =>
    obtain ⟨answer, records, alike⟩ := similar.step random
    exact ⟨congrArg Answer.stepped answer, records, alike⟩
  | press key =>
    obtain ⟨records, alike⟩ := similar.machine.press key
    exact ⟨rfl, records, alike, similar.history⟩
  | release key =>
    obtain ⟨records, alike⟩ := similar.machine.release key
    exact ⟨rfl, records, alike, similar.history⟩
  | tick | markShown =>
    exact ⟨rfl, rfl, Machine.similar_of_used used, similar.history⟩
  | rewind => exact ⟨rfl, rfl, similar.rewind⟩
  | edit change => cases plain

end Similar

/-- Similar consoles give the same answers to the same inputs, tell the same, use as many of the
random bytes, and are similar afterwards. -/
theorem run_similar (c d : Console) (similar : c.Similar d) (dice : Dice) (inputs : List Input)
    (plain : ∀ input ∈ inputs, input.isEdit = false) :
    (d.run dice inputs).answers = (c.run dice inputs).answers ∧
      (d.run dice inputs).dice = (c.run dice inputs).dice ∧
      (d.run dice inputs).records = (c.run dice inputs).records ∧
      (c.run dice inputs).console.Similar (d.run dice inputs).console := by
  induction inputs generalizing c d dice with
  | nil => exact ⟨rfl, rfl, rfl, similar⟩
  | cons input rest ih =>
    have first := similar.perform dice.top (plain input List.mem_cons_self)
    -- The same answer names the same instruction, so the others find the same dice.
    obtain ⟨answers, rolled, records, alike⟩ := ih _ _ first.console
      (dice.after (c.perform dice.top input).answer.executed?)
      (fun later member => plain later (List.mem_cons_of_mem _ member))
    simp only [run, first.answer, first.records]
    refine ⟨?_, rolled, ?_, alike⟩
    · rw [answers]
    · rw [records]

/-- A console switched on with a clean stack and one with a stale stack call the same subroutine,
return from it, and go back into it. The stale slots stay apart all along. -/
theorem run_similar_stale :
    let stale (m : Machine) : Machine :=
      { m with sound := 9, redraw := true, stack := Vector.replicate 16 0xABC }
    let c : Console := ⟨Machine.initial, [Machine.initial]⟩
    let d : Console := ⟨stale Machine.initial, [stale Machine.initial]⟩
    let inputs : List Input := [.load [.bytes [0x22, 0x04, 0xC0, 0xFF, 0x00, 0xEE]], .step, .tick,
      .step, .press 3, .step, .rewind, .markShown, .rewind, .step, .step]
    let dice := Dice.ofList [7, 8]
    c.Similar d ∧ (∀ input ∈ inputs, input.isEdit = false) ∧
      (d.run dice inputs).answers = (c.run dice inputs).answers ∧
      (d.run dice inputs).dice = (c.run dice inputs).dice ∧
      (c.run dice inputs).console.Similar (d.run dice inputs).console ∧
      (c.run dice inputs).console.machine.stack ≠ (d.run dice inputs).console.machine.stack := by
  intro stale c d inputs dice
  have alike : Machine.initial.Similar (stale Machine.initial) :=
    Machine.similar_of_used fun _ _ used => absurd used (Nat.not_lt_zero _)
  have similar : c.Similar d := ⟨alike, .cons alike .nil⟩
  have plain : ∀ input ∈ inputs, input.isEdit = false := by decide
  obtain ⟨answers, rolled, -, last⟩ := run_similar c d similar dice inputs plain
  refine ⟨similar, plain, answers, rolled, last, ?_⟩
  decide +kernel

end Console

end Chip8
