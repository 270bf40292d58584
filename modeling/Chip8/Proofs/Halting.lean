import Chip8.Proofs.Atomicity
import Chip8.Proofs.Waiting

/-!
# A machine that has halted

A step that fails leaves the machine where it stands, so the next step fails as well. What keys,
timers and frames change in between is nothing that a step looks at before it does its work, and no
key is handed to a register, since a machine that awaits one does not fail.

## Main result

`halted_stays`: after a step has failed every step fails with the same fault, until the state is
taken back, loaded into or edited.
-/

namespace Chip8

/-- Whether an input can get a machine going again that has halted. -/
def Input.revives : Input → Bool
  | .load _ | .rewind | .edit _ => true
  | _ => false

/-- The answer of a machine that has halted. -/
def Input.haltedAnswer (fault : Fault) : Input → Answer
  | .step => .stepped (.error fault)
  | _ => .done

namespace Machine

/-- Neither the timers nor the keypad nor the redrawing is looked at before a step does its work. -/
theorem Stands.abreast {m after : Machine} (stands : m.Stands after) : m.Abreast after := by
  refine ⟨stands.awaiting, stands.fetch, ?_⟩
  obtain ⟨_, _, _, _, rfl⟩ := stands
  rfl

theorem Halts.of_stands {m after : Machine} {fault : Fault} (halts : m.Halts fault)
    (stands : m.Stands after) : after.Halts fault := by
  rw [← m.step_eq_error_iff_halts 0] at halts
  exact (after.step_eq_error_iff_halts 0 fault).mp (stands.abreast.step_error 0 halts)

/-- A machine that awaits a key does not fail. -/
theorem Halts.ready {m : Machine} {fault : Fault} (halts : m.Halts fault) : m.awaiting = none := by
  cases halts with
  | beyondMemory ready => exact ready
  | refused ready => exact ready

end Machine

namespace Console

variable {c : Console} {fault : Fault}

/-- What an input comes to on a machine that has halted. -/
structure Refusing (c : Console) (fault : Fault) (input : Input) (reply : Reply Answer) : Prop where
  answer : reply.answer = input.haltedAnswer fault
  machine : c.machine.Stands reply.console.machine
  history : reply.console.history = c.history

theorem perform_refusing (halts : c.machine.Halts fault) (random : UInt8) {input : Input}
    (still : input.revives = false) : c.Refusing fault input (c.perform random input) := by
  -- Without a wait for a key all but the steps leave the machine where it stands.
  have idles (input : Input) (leaves : input.leaves false)
      (quiet : input.idleAnswer = input.haltedAnswer fault) :
      c.Refusing fault input (c.perform random input) := by
    rw [← Option.isSome_none, ← halts.ready] at leaves
    obtain ⟨answer, machine, history, -⟩ := c.perform_idles random input leaves
    exact ⟨answer.trans quiet, machine, history⟩
  cases input with
  | step =>
    have failed := (c.step_answer_eq_error_iff random fault).mpr halts
    simp only [perform, failed, step_console_of_error failed]
    exact ⟨rfl, .refl _, rfl⟩
  | press key => exact idles (.press key) rfl rfl
  | release key => exact idles (.release key) rfl rfl
  | tick => exact idles .tick rfl rfl
  | markShown => exact idles .markShown rfl rfl
  | load | rewind | edit => cases still

/-- What a run comes to on a machine that has halted. -/
structure StaysHalted (c : Console) (fault : Fault) (dice : Dice) (inputs : List Input) : Prop where
  answers : (c.run dice inputs).answers = inputs.map (Input.haltedAnswer fault)
  machine : c.machine.Stands (c.run dice inputs).console.machine
  history : (c.run dice inputs).console.history = c.history
  unrolled : (c.run dice inputs).dice = dice

theorem run_staysHalted (halts : c.machine.Halts fault) (dice : Dice) {inputs : List Input}
    (still : ∀ input ∈ inputs, input.revives = false) : c.StaysHalted fault dice inputs := by
  induction inputs generalizing c with
  | nil => exact ⟨rfl, .refl _, rfl, rfl⟩
  | cons input rest ih =>
    have first := perform_refusing halts dice.top (still input List.mem_cons_self)
    -- Nothing is executed, so the dice stay as they are.
    have unrolled : dice.after (c.perform dice.top input).answer.executed? = dice := by
      rw [first.answer]
      cases input <;> rfl
    obtain ⟨answers, machine, history, rolled⟩ :=
      ih (halts.of_stands first.machine) fun later member =>
        still later (List.mem_cons_of_mem _ member)
    constructor
    · simp only [run, unrolled]
      rw [first.answer, answers, List.map_cons]
    · simp only [run, unrolled]
      exact first.machine.trans machine
    · simp only [run, unrolled]
      exact history.trans first.history
    · simp only [run, unrolled]
      exact rolled

/-- After a step that failed, every step fails with the same fault, whatever keys, ticks and frames
come in between. History and dice stay as they are, and the machine differs from the one that failed
at most in its timers, in its keypad and in whether there is a frame to show. If a step comes to
anything else, the state has been taken back, loaded into or edited. -/
theorem halted_stays {c : Console} {random : UInt8} {fault : Fault}
    (failed : (c.step random).answer = .error fault) (dice : Dice) (inputs : List Input) :
    let stopped := (c.step random).console
    let later := (stopped.run dice inputs).console
    stopped = c ∧
      ((∀ input ∈ inputs, input.revives = false) →
        stopped.StaysHalted fault dice inputs ∧
          ∀ random, (later.step random).answer = .error fault ∧
            (later.step random).console = later) ∧
      ((∃ random, (later.step random).answer ≠ .error fault) →
        ∃ input ∈ inputs, (∃ pieces, input = .load pieces) ∨ input = .rewind ∨
          ∃ change, input = .edit change) := by
  intro stopped later
  have same : stopped = c := step_console_of_error failed
  have halts : stopped.machine.Halts fault := by
    rw [same]
    exact (c.step_answer_eq_error_iff random fault).mp failed
  -- What stands still in a halted machine is all that decides a step.
  have goesOn (still : ∀ input ∈ inputs, input.revives = false) (random : UInt8) :
      (later.step random).answer = .error fault :=
    (later.step_answer_eq_error_iff random fault).mpr
      (halts.of_stands (run_staysHalted halts dice still).machine)
  refine ⟨same, fun still => ⟨run_staysHalted halts dice still, fun random => ?_⟩, ?_⟩
  · exact ⟨goesOn still random, step_console_of_error (goesOn still random)⟩
  · rintro ⟨random, other⟩
    -- If no input revives, the step fails as before.
    by_contra none
    refine other (goesOn (fun input member => ?_) random)
    cases input with
    | load pieces => exact absurd ⟨_, member, .inl ⟨pieces, rfl⟩⟩ none
    | rewind => exact absurd ⟨_, member, .inr (.inl rfl)⟩ none
    | edit change => exact absurd ⟨_, member, .inr (.inr ⟨change, rfl⟩)⟩ none
    | _ => rfl

/-- A console whose second opcode is machine code. -/
def halting : Console :=
  (initial.run (.ofList []) [.load [.bytes [0x60, 0x01, 0x01, 0x11]], .step]).console

/-- Keys, ticks and frames do not help; taking back, loading and editing do. -/
theorem halted_stays_machineCode :
    let fault := Fault.machineCode 0x0111
    let inputs : List Input := [.press 3, .tick, .step, .press 0x20, .release 3, .markShown, .step]
    let going (input : Input) :=
      ((halting.run (.ofList []) (inputs ++ [input])).console.step 0).answer
    (halting.step 0).answer = .error fault ∧
      (halting.step 0).console.StaysHalted fault (.ofList []) inputs ∧
      going .rewind = .ok (some (.setByte 0 1)) ∧
      going (.load [.bytes [0x00, 0xE0, 0x00, 0xE0]]) = .ok (some .clear) ∧
      going (.edit ({ · with pc := 0x200 })) = .ok (some (.setByte 0 1)) := by
  intro fault inputs going
  have facts : (halting.step 0).answer = .error (.machineCode 0x0111) ∧
      going .rewind = .ok (some (.setByte 0 1)) ∧
      going (.load [.bytes [0x00, 0xE0, 0x00, 0xE0]]) = .ok (some .clear) ∧
      going (.edit ({ · with pc := 0x200 })) = .ok (some (.setByte 0 1)) := by
    decide +kernel
  obtain ⟨failed, others⟩ := facts
  obtain ⟨-, stays, -⟩ := halted_stays failed (.ofList []) inputs
  exact ⟨failed, (stays (by decide)).1, others⟩

end Console

end Chip8
