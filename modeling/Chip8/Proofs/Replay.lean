import Chip8.Proofs.History
import Chip8.Proofs.Veil

/-!
# Taking steps back and making them again

A state taken back is as it was, but that it is to be shown again. No instruction looks at whether
there is a frame to show, so the steps that led on from that state lead on from it once more, as
long as the dice show the same bytes. The frame stays to be shown all along.

## Main result

`replay`: steps that are taken back and made again lead to the same state and leave the same
history, up to the frame to be shown.
-/

namespace Chip8

namespace Dice

/-- Whether dice show the bytes that others showed, from where these stood until so many of them
were used up. -/
def Repeats (dice first : Dice) (used : Nat) : Prop :=
  ∀ taken, first.rolled + taken < used →
    dice.stream (dice.rolled + taken) = first.stream (first.rolled + taken)

theorem rolled_le_after (dice : Dice) (instruction : Instruction) :
    dice.rolled ≤ (dice.after (some instruction)).rolled := by
  unfold after
  split
  · exact Nat.le_succ _
  · exact Nat.le_refl _

/-- The byte of one instruction, and then those of the others. -/
theorem Repeats.after {dice first : Dice} {used : Nat} (repeats : dice.Repeats first used)
    {instruction : Instruction} (enough : (first.after (some instruction)).rolled ≤ used) :
    (instruction.rolls = true → dice.top = first.top) ∧
      (dice.after (some instruction)).Repeats (first.after (some instruction)) used := by
  cases rolls : instruction.rolls with
  | false =>
    simp only [Dice.after, Option.any_some, rolls, Bool.false_eq_true, if_false]
    exact ⟨nofun, repeats⟩
  | true =>
    simp only [Dice.after, Option.any_some, rolls, if_true, roll] at enough ⊢
    refine ⟨fun _ => repeats 0 enough, ?_⟩
    intro taken within
    have shifted := repeats (1 + taken) (by simpa [Nat.add_assoc] using within)
    simpa only [Nat.add_assoc] using shifted

end Dice

namespace Machine

/-- Steps that all execute an instruction. The states that they leave behind are listed with the
latest first. -/
inductive Executes : Machine → Dice → List Instruction → List Machine → Machine → Dice → Prop
  | done (m : Machine) (dice : Dice) : Executes m dice [] [] m dice
  | more {m after last : Machine} {dice final : Dice} {instruction : Instruction}
      {later : List Instruction} {trail : List Machine}
      (stepped : m.step dice.top = .ok (some (instruction, after)))
      (goesOn : Executes after (dice.after (some instruction)) later trail last final) :
      Executes m dice (instruction :: later) (trail ++ [m]) last final

namespace Executes

theorem rolled_le {m last : Machine} {dice final : Dice} {instructions : List Instruction}
    {trail : List Machine} (executes : Executes m dice instructions trail last final) :
    dice.rolled ≤ final.rolled := by
  induction executes with
  | done m dice => exact Nat.le_refl _
  | @more m after last dice final instruction later trail stepped goesOn ih =>
    exact Nat.le_trans (dice.rolled_le_after instruction) ih

/-- A console that executes these steps remembers the states on the trail. -/
theorem run {m last : Machine} {dice final : Dice} {instructions : List Instruction}
    {trail : List Machine} (executes : Executes m dice instructions trail last final)
    {history : List Machine} (short : history.length ≤ 600) :
    let outcome := (Console.mk m history).run dice (List.replicate trail.length .step)
    outcome.answers = instructions.map (fun instruction => .stepped (.ok (some instruction))) ∧
      outcome.console = ⟨last, (trail ++ history).take 600⟩ ∧ outcome.dice = final := by
  induction executes generalizing history with
  | done m dice =>
    rw [List.nil_append, List.take_of_length_le short]
    exact ⟨rfl, rfl, rfl⟩
  | @more m after last dice final instruction later trail stepped goesOn ih =>
    have step : (Console.mk m history).step dice.top =
        ⟨.ok (some instruction), ⟨after, (m :: history).take 600⟩, m.told⟩ := by
      unfold Console.step
      rw [stepped]
      rfl
    obtain ⟨answers, console, rolled⟩ := ih (List.length_take_le 600 (m :: history))
    have length : (trail ++ [m]).length = trail.length + 1 := by simp
    rw [length, List.replicate_succ]
    simp only [Console.run, Console.perform, step, Answer.executed?]
    refine ⟨?_, ?_, rolled⟩
    · rw [answers, List.map_cons]
    · -- What is forgotten now would be forgotten later.
      rw [console, List.append_assoc, List.singleton_append, List.take_append, List.take_append,
        List.take_take, Nat.min_eq_left (Nat.sub_le _ _)]

end Executes

theorem due_of_redraw {m : Machine} (shown : m.redraw = true) : m.due = m := by
  obtain ⟨_, _, _, _, _, _, _, _, _, redraw, _, _⟩ := m
  cases shown
  rfl

/-- A frame that is to be shown stays so, whatever is executed. -/
theorem redraw_of_step {m after : Machine} {random : UInt8} {instruction : Instruction}
    (stepped : m.step random = .ok (some (instruction, after))) (due : m.redraw = true) :
    after.redraw = true := by
  rw [eq_outcome_of_step stepped, resume_redraw]
  simp [outcome, due]

/-- Whether there is a frame to show makes no difference to a step, and it is left alone. -/
theorem step_due {m after : Machine} {random other : UInt8} {instruction : Instruction}
    (stepped : m.step random = .ok (some (instruction, after)))
    (rolled : instruction.rolls = true → other = random) :
    m.due.step other = .ok (some (instruction, after.due)) := by
  have hidden : m.due = m.due.due := rfl
  obtain ⟨reached, made, alike⟩ :=
    due_veil.step_some hidden other stepped instruction.overlooks_due rolled
  rw [made, alike, due_of_redraw (redraw_of_step made rfl)]

namespace Executes

/-- The same steps are made from a state to be shown, if the dice show the same bytes. -/
theorem due {m last : Machine} {dice final : Dice} {instructions : List Instruction}
    {trail : List Machine} (executes : Executes m dice instructions trail last final)
    {other : Dice} (repeats : other.Repeats dice final.rolled) :
    ∃ rest, Executes m.due other instructions (trail.map Machine.due) last.due rest := by
  induction executes generalizing other with
  | done m dice => exact ⟨other, .done m.due other⟩
  | @more m after last dice final instruction later trail stepped goesOn ih =>
    obtain ⟨first, others⟩ := repeats.after goesOn.rolled_le
    obtain ⟨rest, made⟩ := ih others
    refine ⟨rest, ?_⟩
    rw [List.map_append, List.map_singleton]
    exact .more (step_due stepped first) made

/-- Nothing is forgotten while there is room for the whole trail. -/
theorem run_room {m last : Machine} {dice final : Dice} {instructions : List Instruction}
    {trail : List Machine} (executes : Executes m dice instructions trail last final)
    {history : List Machine} (room : trail.length + history.length ≤ 600) :
    let outcome := (Console.mk m history).run dice (List.replicate trail.length .step)
    outcome.answers = instructions.map (fun instruction => .stepped (.ok (some instruction))) ∧
      outcome.console = ⟨last, trail ++ history⟩ := by
  have short : history.length ≤ 600 := by omega
  have whole : (trail ++ history).take 600 = trail ++ history := by
    apply List.take_of_length_le
    rw [List.length_append]
    exact room
  obtain ⟨answers, console, -⟩ := executes.run short
  rw [whole] at console
  exact ⟨answers, console⟩

theorem getElem?_trail {m last : Machine} {dice final : Dice} {instructions : List Instruction}
    {trail : List Machine} (executes : Executes m dice instructions trail last final)
    (moves : 1 ≤ trail.length) : trail[trail.length - 1]? = some m := by
  cases executes with
  | done => cases moves
  | more stepped goesOn => simp

end Executes

end Machine

namespace Console

/-- Steps that are all answered with an instruction, and the states that they leave behind. -/
theorem exists_executes {c : Console} {dice : Dice} {count : Nat}
    (executed : ∀ answer ∈ (c.run dice (List.replicate count .step)).answers,
      answer.executed?.isSome) :
    ∃ instructions trail last final, trail.length = count ∧
      c.machine.Executes dice instructions trail last final := by
  induction count generalizing c dice with
  | zero => exact ⟨[], [], c.machine, dice, rfl, .done c.machine dice⟩
  | succ count ih =>
    rw [List.replicate_succ, run] at executed
    have answered := executed _ List.mem_cons_self
    cases answer : (c.step dice.top).answer with
    | error fault => simp [perform, answer, Answer.executed?] at answered
    | ok result =>
      cases result with
      | none => simp [perform, answer, Answer.executed?] at answered
      | some instruction =>
        obtain ⟨after, stepped, console⟩ := step_executed answer
        -- The answers after the first are those of a run that begins one step later.
        have later : ∀ answer ∈ ((c.advance after).run (dice.after (some instruction))
            (List.replicate count .step)).answers, answer.executed?.isSome := by
          intro reply member
          refine executed reply (List.mem_cons_of_mem _ ?_)
          simpa [perform, answer, Answer.executed?, console] using member
        obtain ⟨instructions, trail, last, final, length, goesOn⟩ := ih later
        refine ⟨instruction :: instructions, trail ++ [c.machine], last, final, ?_, ?_⟩
        · rw [List.length_append, length, List.length_singleton]
        · exact .more stepped goesOn

/-- Taking back all that was done leads to where it began. -/
theorem rewind_trail {m last : Machine} {dice final : Dice} {instructions : List Instruction}
    {trail : List Machine} (executes : m.Executes dice instructions trail last final)
    (moves : 1 ≤ trail.length) (older : List Machine) :
    rewind^[trail.length] ⟨last, trail ++ older⟩ = ⟨m.due, older⟩ := by
  have held : (trail ++ older)[trail.length - 1]? = some m := by
    rw [List.getElem?_append_left (by omega)]
    exact executes.getElem?_trail moves
  have back := rewind_iterate ⟨last, trail ++ older⟩ (trail.length - 1) m held
  rw [Nat.sub_add_cancel moves, List.drop_left] at back
  exact back

/-- Steps that are taken back and made again, with the same bytes, lead to the same state, to be
shown, and leave the same history but that the states on the way are to be shown as well. -/
theorem replay (c : Console) (dice other : Dice) (count : Nat) (positive : 1 ≤ count)
    (bounded : count ≤ 600) (short : c.history.length ≤ 600)
    (executed : ∀ answer ∈ (c.run dice (List.replicate count .step)).answers,
      answer.executed?.isSome)
    (repeats : other.Repeats dice (c.run dice (List.replicate count .step)).dice.rolled) :
    let first := c.run dice (List.replicate count .step)
    let again := (rewind^[count] first.console).run other (List.replicate count .step)
    again.answers = first.answers ∧
      again.console.machine = { first.console.machine with redraw := true } ∧
      count ≤ first.console.history.length ∧
      again.console.history.length = first.console.history.length ∧
      again.console.history = (first.console.history.take count).map Machine.due ++
        first.console.history.drop count := by
  obtain ⟨instructions, trail, last, final, rfl, executes⟩ := exists_executes executed
  obtain ⟨machine, history⟩ := c
  obtain ⟨answers, console, rolled⟩ := executes.run short
  rw [rolled] at repeats
  obtain ⟨rest, made⟩ := executes.due repeats
  -- The trail is remembered as a whole, and what is left of the history below it.
  have whole : (trail ++ history).take 600 = trail ++ history.take (600 - trail.length) := by
    rw [List.take_append, List.take_of_length_le bounded]
  have room : trail.length + (history.take (600 - trail.length)).length ≤ 600 := by
    rw [List.length_take]
    omega
  rw [whole] at console
  generalize history.take (600 - trail.length) = older at console room
  intro first again
  have back : rewind^[trail.length] first.console = ⟨machine.due, older⟩ := by
    rw [console]
    exact rewind_trail executes positive older
  have same : (trail.map Machine.due).length = trail.length := List.length_map _
  -- Where the trail was taken from, there is room for it once more.
  rw [← same] at room
  obtain ⟨answered, reached⟩ := made.run_room room
  rw [same, ← back] at answered reached
  refine ⟨?_, ?_, ?_, ?_, ?_⟩
  · exact answered.trans answers.symm
  · rw [reached, console]
    rfl
  · rw [console, List.length_append]
    exact Nat.le_add_right _ _
  · rw [reached, console, List.length_append, List.length_append, same]
  · rw [reached, console, List.take_left, List.drop_left]

/-- A program rolls a byte, writes it over its own first instruction and waits for a key. -/
theorem replay_overwritten :
    let program := Font.memory.withRom [0xC0, 0xFF, 0xA2, 0x00, 0xF0, 0x55, 0xF1, 0x0A]
    let c : Console := ⟨{ Machine.initial with memory := program }, []⟩
    let dice := Dice.ofList [7]
    let other : Dice := ⟨fun _ => 7, 3⟩
    let first := c.run dice (List.replicate 4 .step)
    let again := (rewind^[4] first.console).run other (List.replicate 4 .step)
    first.console.machine.awaiting = some 1 ∧ first.console.machine.memory[0x200] = 7 ∧
      first.console.machine.redraw = false ∧
      again.console.machine = { first.console.machine with redraw := true } ∧
      again.console.history.length = 4 := by
  intro program c dice other first again
  have facts : first.console.machine.awaiting = some 1 ∧
      first.console.machine.memory[0x200] = 7 ∧ first.console.machine.redraw = false ∧
      first.console.history.length = 4 ∧ first.dice.rolled = 1 ∧
      ∀ answer ∈ first.answers, answer.executed?.isSome := by
    decide +kernel
  obtain ⟨waits, overwritten, still, remembered, rolled, executed⟩ := facts
  have repeats : other.Repeats dice first.dice.rolled := by
    intro taken within
    rw [rolled] at within
    have only : taken = 0 := by
      change 0 + taken < 1 at within
      omega
    rw [only]
    rfl
  obtain ⟨-, machine, -, length, -⟩ :=
    replay c dice other 4 (by decide) (by decide) (by decide) executed repeats
  exact ⟨waits, overwritten, still, machine, length.trans remembered⟩

end Console

end Chip8
