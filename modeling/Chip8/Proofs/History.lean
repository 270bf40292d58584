import Chip8.Proofs.Run
import Chip8.Proofs.Step
import Mathlib.Logic.Function.Iterate

/-!
# The history as a stack

A console that never forgot would keep its past states on a stack without a limit. The history is
always the upper part of that stack: forgetting the oldest state takes one away at the bottom, and
neither executing nor taking back reaches below the history.

## Main result

`run_history`: after any inputs the history is a prefix of the full past, every input changes its
length as its mark says, and taking states back gives the latest ones in order.
-/

namespace Chip8

inductive Mark where
  /-- The state left behind becomes the latest past state. -/
  | recorded
  /-- The latest past state becomes the current one. -/
  | takenBack
  | kept
  deriving DecidableEq, Repr

namespace Mark

/-- An executed instruction is recorded, and a rewind takes back what it finds. Everything else
keeps the past. -/
def ofInput (executed : Option Instruction) (input : Input) (history : List Machine) : Mark :=
  match executed, input, history with
  | some _, _, _ => .recorded
  | none, .rewind, _ :: _ => .takenBack
  | none, _, _ => .kept

def past (state : Machine) (before : List Machine) : Mark → List Machine
  | .recorded => state :: before
  | .takenBack => before.tail
  | .kept => before

def length (count : Nat) : Mark → Nat
  | .recorded => min (count + 1) 600
  | .takenBack => count - 1
  | .kept => count

end Mark

namespace Console

def mark (c : Console) (random : UInt8) (input : Input) : Mark :=
  .ofInput (c.perform random input).answer.executed? input c.history

/-- All states that a run went through and did not take back, on top of those before it. -/
def fullPast (c : Console) (dice : Dice) (past : List Machine) : List Input → List Machine
  | [] => past
  | input :: rest =>
    let reply := c.perform dice.top input
    reply.console.fullPast (dice.after reply.answer.executed?)
      ((c.mark dice.top input).past c.machine past) rest

/-- What is recorded is the state that an executed instruction leaves: of a step that is answered
well and not spent waiting for a key. -/
theorem mark_eq_recorded_iff (c : Console) (random : UInt8) (input : Input) :
    c.mark random input = .recorded ↔ input = .step ∧ c.machine.awaiting = none ∧
      ∃ executed, (c.step random).answer = .ok executed := by
  unfold mark
  cases input with
  | step =>
    unfold perform step
    cases stepped : c.machine.step random with
    | error fault => simp [Answer.executed?, Mark.ofInput]
    | ok result =>
      rcases result with _ | ⟨instruction, after⟩
      · have waits := (c.machine.step_eq_none_iff random).mp stepped
        have awaited : c.machine.awaiting ≠ none := Option.isSome_iff_ne_none.mp waits
        simp [Answer.executed?, Mark.ofInput, awaited]
      · obtain ⟨ready, -⟩ := (c.machine.step_eq_some_iff after random instruction).mp stepped
        have free : c.machine.awaiting = none :=
          Option.isNone_iff_eq_none.mp (Option.isSome_eq_false_iff.mp ready)
        simp [Answer.executed?, Mark.ofInput, free]
  | rewind =>
    cases history : c.history <;> simp [perform, Answer.executed?, Mark.ofInput]
  | _ => simp [perform, Answer.executed?, Mark.ofInput]

theorem mark_eq_takenBack_iff (c : Console) (random : UInt8) (input : Input) :
    c.mark random input = .takenBack ↔ input = .rewind ∧ c.history ≠ [] := by
  unfold mark
  cases input with
  | step =>
    cases answer : (c.step random).answer with
    | error fault => simp [perform, answer, Answer.executed?, Mark.ofInput]
    | ok executed => cases executed <;> simp [perform, answer, Answer.executed?, Mark.ofInput]
  | rewind =>
    cases history : c.history <;> simp [perform, Answer.executed?, Mark.ofInput]
  | _ => simp [perform, Answer.executed?, Mark.ofInput]

theorem length_perform (c : Console) (random : UInt8) (input : Input) :
    (c.perform random input).console.history.length =
      (c.mark random input).length c.history.length := by
  have performed := c.perform_performed random input
  unfold mark
  generalize (c.perform random input).answer.executed? = executed at performed ⊢
  generalize (c.perform random input).console = after at performed ⊢
  cases performed with
  | executed stepped =>
    simp only [advance, historyLimit, Mark.ofInput, Mark.length, List.length_take, List.length_cons]
    omega
  | takenBack history => simp [history, Mark.ofInput, Mark.length]
  | atBeginning history => simp [history, Mark.ofInput, Mark.length]
  | edited change => rfl
  | undisturbed forward same => cases input <;> first | rfl | contradiction

theorem prefix_perform (c : Console) (random : UInt8) (input : Input) (past : List Machine)
    (upper : c.history <+: past) :
    (c.perform random input).console.history <+: (c.mark random input).past c.machine past := by
  have performed := c.perform_performed random input
  unfold mark
  generalize (c.perform random input).answer.executed? = executed at performed ⊢
  generalize (c.perform random input).console = after at performed ⊢
  cases performed with
  | executed stepped =>
    -- Forgetting the oldest state leaves an upper part of an upper part.
    have pushed : c.machine :: c.history <+: c.machine :: past := by simpa using upper
    exact (List.take_prefix _ _).trans pushed
  | takenBack history =>
    -- What is found on the history is also on top of the full past.
    obtain ⟨lower, rfl⟩ := upper
    simp [history, Mark.ofInput, Mark.past]
  | atBeginning history => simp [history]
  | edited change => exact upper
  | undisturbed forward same => cases input <;> first | exact upper | contradiction

theorem prefix_run (c : Console) (dice : Dice) (past : List Machine) (inputs : List Input)
    (upper : c.history <+: past) :
    (c.run dice inputs).console.history <+: c.fullPast dice past inputs := by
  induction inputs generalizing c dice past with
  | nil => exact upper
  | cons input rest ih =>
    rw [run_cons]
    exact ih _ _ _ (c.prefix_perform dice.top input past upper)

theorem length_run_le (dice : Dice) (inputs : List Input) :
    (initial.run dice inputs).console.history.length ≤ 600 := by
  refine run_keeps (fun c => c.history.length ≤ 600) (fun _ => True) ?_ initial dice inputs
    (fun _ _ => trivial) (Nat.zero_le _)
  intro c random input _ short
  rw [length_perform]
  cases c.mark random input <;> simp only [Mark.length] <;> omega

/-- Taking back one state after the other gives the states of the history in order. -/
theorem rewind_iterate (c : Console) (count : Nat) (state : Machine)
    (held : c.history[count]? = some state) :
    rewind^[count + 1] c = ⟨{ state with redraw := true }, c.history.drop (count + 1)⟩ := by
  induction count generalizing c with
  | zero =>
    obtain ⟨machine, history⟩ := c
    cases history with
    | nil => cases held
    | cons latest older =>
      cases held
      rfl
  | succ count ih =>
    obtain ⟨machine, history⟩ := c
    cases history with
    | nil => cases held
    | cons latest older =>
      -- The first rewind drops the latest state, and the others go on from there.
      rw [Function.iterate_succ_apply]
      exact ih ⟨{ latest with redraw := true }, older⟩ held

theorem rewind_of_history_eq_nil (c : Console) (none : c.history = []) : c.rewind = c := by
  simp only [rewind, none]

/-- The history is the upper part of the full past, and at most 600 states long: executing adds a
state, taking back removes the latest, and nothing else changes it. Taking back `count + 1` times
gives the state at that place of the full past, to be shown again; with nothing to take back nothing
happens. A step adds a state if it is answered well and no key is awaited, and a rewind takes one
back if there is one; no other input does either. -/
theorem run_history (dice : Dice) (inputs : List Input) :
    let c := (initial.run dice inputs).console
    let past := initial.fullPast dice [] inputs
    c.history <+: past ∧ c.history.length ≤ 600 ∧
      (∀ random input, (c.perform random input).console.history.length =
        (c.mark random input).length c.history.length) ∧
      (∀ count, count < c.history.length → ∃ state, past[count]? = some state ∧
        rewind^[count + 1] c = ⟨{ state with redraw := true }, c.history.drop (count + 1)⟩) ∧
      (c.history = [] → c.rewind = c) ∧
      (∀ random input, c.mark random input = .recorded ↔ input = .step ∧
        c.machine.awaiting = none ∧ ∃ executed, (c.step random).answer = .ok executed) ∧
      (∀ random input, c.mark random input = .takenBack ↔ input = .rewind ∧ c.history ≠ []) := by
  intro c past
  have upper : c.history <+: past := prefix_run initial dice [] inputs (List.prefix_refl _)
  refine ⟨upper, length_run_le dice inputs, c.length_perform, ?_, c.rewind_of_history_eq_nil,
    c.mark_eq_recorded_iff, c.mark_eq_takenBack_iff⟩
  intro count held
  have found : c.history[count]? = some c.history[count] := List.getElem?_eq_getElem held
  obtain ⟨lower, whole⟩ := upper
  refine ⟨c.history[count], ?_, c.rewind_iterate count _ found⟩
  rw [← whole, List.getElem?_append_left held, found]

end Console

end Chip8
