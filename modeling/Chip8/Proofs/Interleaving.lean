import Chip8.Proofs.Signals
import Mathlib.Logic.Relation

/-!
# Inputs in another order

Where a signal and a step can change places, so can they in the middle of a run: what follows finds
the same state and the same dice. A rewind alone would find another history, since a state is
remembered with the signals that came before its step.

## Main result

`interleave`: a step changes places with a signal unless the opcode that is due clashes with it, the
timers change places with the keys, and runs whose inputs differ by such changes lead to the same
state by steps with the same results.
-/

namespace Chip8

/-- The inputs that can change places on a machine. -/
inductive Machine.Swappable (m : Machine) : Input → Input → Prop
  | stepSignal {signal : Signal} (ready : m.awaiting = none)
      (apart : ¬ ∃ op, m.fetch = .ok op ∧ signal.Clashes m op) :
      Swappable m .step signal.input
  | tickKey (down : Bool) (number : UInt8) : Swappable m .tick (Signal.input (.key down number))
  | symm {first second : Input} (swappable : Swappable m first second) : Swappable m second first

/-- The result of a step, if that is what is answered. -/
def Answer.result? : Answer → Option (Except Fault (Option Instruction))
  | .stepped result => some result
  | _ => none

namespace Outcome

def results (outcome : Outcome) : List (Except Fault (Option Instruction)) :=
  outcome.answers.filterMap Answer.result?

/-- Runs that lead to the same state by steps with the same results. -/
structure Agrees (outcome other : Outcome) : Prop where
  machine : other.console.machine = outcome.console.machine
  dice : other.dice = outcome.dice
  results : other.results = outcome.results

theorem Agrees.symm {outcome other : Outcome} (agrees : outcome.Agrees other) :
    other.Agrees outcome :=
  ⟨agrees.machine.symm, agrees.dice.symm, agrees.results.symm⟩

theorem Agrees.trans {outcome between other : Outcome} (first : outcome.Agrees between)
    (second : between.Agrees other) : outcome.Agrees other :=
  ⟨second.machine.trans first.machine, second.dice.trans first.dice,
    second.results.trans first.results⟩

end Outcome

namespace Console

/-- Only a rewind looks at the history. -/
theorem perform_of_machine_eq {c d : Console} (same : d.machine = c.machine) (random : UInt8)
    {input : Input} (forward : input ≠ .rewind) :
    (d.perform random input).answer = (c.perform random input).answer ∧
      (d.perform random input).console.machine = (c.perform random input).console.machine := by
  cases input with
  | load pieces =>
    simp only [perform, load]
    cases Rom.read pieces with
    | error cause => exact ⟨rfl, same⟩
    | ok bytes => simp only [edit, same, and_self]
  | step =>
    simp only [perform, step, same]
    cases c.machine.step random with
    | error fault => exact ⟨rfl, same⟩
    | ok result =>
      rcases result with _ | ⟨instruction, after⟩
      · exact ⟨rfl, same⟩
      · exact ⟨rfl, rfl⟩
  | press key => simp only [perform, press, same, and_self]
  | release key => simp only [perform, release, same, and_self]
  | tick | markShown => simp only [perform, tick, markShown, edit, same, and_self]
  | edit change => simp only [perform, edit, same, and_self]
  | rewind => exact absurd rfl forward

theorem run_of_machine_eq {c d : Console} (same : d.machine = c.machine) (dice : Dice)
    {inputs : List Input} (forward : ∀ input ∈ inputs, input ≠ .rewind) :
    (c.run dice inputs).Agrees (d.run dice inputs) := by
  induction inputs generalizing c d dice with
  | nil => exact ⟨same, rfl, rfl⟩
  | cons input rest ih =>
    -- The same answer takes the same bytes from the dice.
    obtain ⟨answer, machine⟩ :=
      perform_of_machine_eq same dice.top (forward input List.mem_cons_self)
    obtain ⟨last, rolled, results⟩ := ih machine
      (dice.after (c.perform dice.top input).answer.executed?)
      (fun later member => forward later (List.mem_cons_of_mem _ member))
    refine ⟨?_, ?_, ?_⟩
    · simp only [run, answer]
      exact last
    · simp only [run, answer]
      exact rolled
    · unfold Outcome.results at results ⊢
      simp only [run, answer, List.filterMap_cons, results]

theorem results_append (c : Console) (dice : Dice) (first later : List Input) :
    (c.run dice (first ++ later)).results = (c.run dice first).results ++
      ((c.run dice first).console.run (c.run dice first).dice later).results := by
  rw [run_append]
  exact List.filterMap_append

/-- Runs that begin alike agree if they go on alike without a rewind. -/
theorem agrees_append_right {c : Console} {dice : Dice} {first other later : List Input}
    (begun : (c.run dice first).Agrees (c.run dice other))
    (forward : ∀ input ∈ later, input ≠ .rewind) :
    (c.run dice (first ++ later)).Agrees (c.run dice (other ++ later)) := by
  have goesOn := run_of_machine_eq begun.machine (c.run dice first).dice forward
  refine ⟨?_, ?_, ?_⟩
  · simp only [run_append, begun.dice]
    exact goesOn.machine
  · simp only [run_append, begun.dice]
    exact goesOn.dice
  · rw [results_append, results_append, begun.dice, begun.results, goesOn.results]

theorem agrees_append_left {c : Console} {dice : Dice} (before : List Input)
    {first other : List Input}
    (goesOn : ((c.run dice before).console.run (c.run dice before).dice first).Agrees
      ((c.run dice before).console.run (c.run dice before).dice other)) :
    (c.run dice (before ++ first)).Agrees (c.run dice (before ++ other)) := by
  refine ⟨?_, ?_, ?_⟩
  · rw [run_append, run_append]
    exact goesOn.machine
  · rw [run_append, run_append]
    exact goesOn.dice
  · rw [results_append, results_append, goesOn.results]

theorem perform_signal_done (c : Console) (random other : UInt8) (signal : Signal) :
    c.perform other signal.input = c.perform random signal.input ∧
      (c.perform random signal.input).answer = .done := by
  cases signal with
  | tick => exact ⟨rfl, rfl⟩
  | key down number => cases down <;> exact ⟨rfl, rfl⟩

/-- What the dice show matters to the step alone, and it comes to the same either way. -/
theorem run_swappable {c : Console} {m : Machine} (here : c.machine = m) {first second : Input}
    (swappable : m.Swappable first second) (dice : Dice) :
    (c.run dice [first, second]).Agrees (c.run dice [second, first]) := by
  have unrolled (dice : Dice) : dice.after Answer.done.executed? = dice := rfl
  induction swappable with
  | @stepSignal signal ready apart =>
    subst here
    obtain ⟨answer, machine⟩ := (interchange_iff ready dice.top signal).mpr apart
    obtain ⟨-, served⟩ := c.perform_signal_done dice.top dice.top signal
    have stepped (d : Console) : d.perform dice.top .step =
        ⟨.stepped (d.step dice.top).answer, (d.step dice.top).console, (d.step dice.top).records⟩ :=
      rfl
    obtain ⟨late, done⟩ := (c.step dice.top).console.perform_signal_done dice.top
      (dice.after (Answer.stepped (c.step dice.top).answer).executed?).top signal
    simp only [run, served, unrolled, stepped, answer, late, done]
    exact ⟨machine, rfl, rfl⟩
  | tickKey down number =>
    have commutes := c.tick_key dice.top down number
    obtain ⟨-, served⟩ := c.perform_signal_done dice.top dice.top (.key down number)
    have ticked (d : Console) : d.perform dice.top .tick = ⟨.done, d.tick 1, []⟩ := rfl
    simp only [run, ticked, unrolled, commutes, served]
    exact ⟨rfl, rfl, rfl⟩
  | symm swappable ih => exact ih.symm

/-- Inputs of which two neighbours have changed places. The state that they meet lets them, and no
rewind brings back what their order has left in the history. -/
inductive Swapped (c : Console) (dice : Dice) : List Input → List Input → Prop
  | intro (before : List Input) {first second : Input} {later : List Input}
      (swappable : (c.run dice before).console.machine.Swappable first second)
      (forward : ∀ input ∈ later, input ≠ .rewind) :
      Swapped c dice (before ++ ([first, second] ++ later)) (before ++ ([second, first] ++ later))

theorem Swapped.agrees {c : Console} {dice : Dice} {inputs others : List Input}
    (swapped : c.Swapped dice inputs others) :
    (c.run dice inputs).Agrees (c.run dice others) := by
  obtain ⟨before, swappable, forward⟩ := swapped
  exact agrees_append_left before (agrees_append_right (run_swappable rfl swappable _) forward)

/-- On a machine that awaits no key a step and a signal come to the same in either order, failing
steps included, unless the opcode that is due clashes with the signal. The timers count down alike
before and after a key, whatever the machine awaits. So inputs that differ by such changes of place
lead to the same state, by steps with the same results. -/
theorem interleave (c : Console) :
    (c.machine.awaiting = none → ∀ random signal,
      (c.Interchange random signal ↔
        ¬ ∃ op, c.machine.fetch = .ok op ∧ signal.Clashes c.machine op)) ∧
      (∀ random down number, let key := Signal.input (.key down number)
        (c.tick 1).perform random key =
          let reply := c.perform random key
          { reply with console := reply.console.tick 1 }) ∧
      ∀ dice inputs others, Relation.EqvGen (c.Swapped dice) inputs others →
        (c.run dice inputs).Agrees (c.run dice others) := by
  refine ⟨fun ready random signal => interchange_iff ready random signal, c.tick_key, ?_⟩
  intro dice inputs others interleaved
  induction interleaved with
  | rel inputs others swapped => exact swapped.agrees
  | refl inputs => exact ⟨rfl, rfl, rfl⟩
  | symm inputs others _ ih => exact ih.symm
  | trans inputs between others _ _ first second => exact first.trans second

/-- A program sets a register and asks whether the key of that number is down. The key changes
places with the first of these steps, but not with the second. -/
theorem interleave_key :
    let c := (initial.run (.ofList []) [.load [.bytes [0x60, 0x05, 0xE0, 0x9E]]]).console
    let dice := Dice.ofList []
    c.machine.awaiting = none ∧
      Relation.EqvGen (c.Swapped dice) [.press 5, .step, .step] [.step, .press 5, .step] ∧
      (c.run dice [.press 5, .step, .step]).Agrees (c.run dice [.step, .press 5, .step]) ∧
      ¬ (c.run dice [.step, .press 5, .step]).Agrees (c.run dice [.step, .step, .press 5]) := by
  intro c dice
  have facts : c.machine.awaiting = none ∧ c.machine.fetch = .ok 0x6005 ∧
      (c.run dice [.step, .press 5, .step]).console.machine.pc ≠
        (c.run dice [.step, .step, .press 5]).console.machine.pc := by
    decide +kernel
  obtain ⟨ready, fetched, apart⟩ := facts
  have peaceful : ¬ ∃ op, c.machine.fetch = .ok op ∧ Signal.Clashes c.machine op (.key true 5) := by
    rintro ⟨op, same, clashes⟩
    rw [fetched] at same
    cases same
    cases clashes with
    | keyAwaited awaits known => exact absurd awaits.1 (by decide)
    | keyAsked asks same news => exact absurd asks.1 (by decide)
  -- The exchange is stated with the step first, so it is used backwards.
  have interleaved : Relation.EqvGen (c.Swapped dice) [.press 5, .step, .step]
      [.step, .press 5, .step] :=
    .symm _ _ (.rel _ _ (.intro [] (.stepSignal ready peaceful) (by simp)))
  obtain ⟨-, -, agree⟩ := interleave c
  refine ⟨ready, interleaved, agree dice _ _ interleaved, ?_⟩
  intro agrees
  exact apart (congrArg Machine.pc agrees.machine).symm

end Console

end Chip8
