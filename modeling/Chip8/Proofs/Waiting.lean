import Chip8.Proofs.Replay

/-!
# Waiting for a key

A machine that awaits a key stands still. Steps are answered and do nothing, the keypad and the
timers go on, and no key that was down before ends the wait. What an input leaves alone depends only
on whether a key is awaited, so the same induction follows a machine through its wait and, once the
key is there, up to its next step.

## Main result

`key_wait`: from the step that begins a wait, through any inputs that leave it alone, to the key
that ends it or to the rewind that takes it back.
-/

namespace Chip8

/-- Whether an input leaves a machine where it stands. While a key is awaited a step does, and of
the keys only those that the keypad does not have. -/
def Input.leaves (awaits : Bool) : Input → Bool
  | .step => awaits
  | .press key => !awaits || 16 ≤ key.toNat
  | .release _ | .tick | .markShown => true
  | .load _ | .rewind | .edit _ => false

/-- The answer to an input that leaves a machine where it stands. -/
def Input.idleAnswer : Input → Answer
  | .step => .stepped (.ok none)
  | _ => .done

/-- The opcodes that wait for a key. -/
theorem Opcode.decode_eq_awaitKey_iff (op : Opcode) (x : Nibble) :
    op.decode = .ok (.awaitKey x) ↔ op.toNat = 0xF00A + 0x100 * x.val := by
  have fits : op.decode = .ok (.awaitKey x) ↔ (op.family = 0xF ∧ op.kk = 0x0A) ∧ op.x = x :=
    op.decode_eq_iff_of_byte rfl
  have bound := op.toNat_lt
  have low : (0x0A : UInt8).toNat = 0x0A := rfl
  rw [fits, ← UInt8.toNat_inj]
  simp only [family, Opcode.x, kk, nibble, Fin.ext_iff, UInt8.toNat_ofNat', low,
    Nat.shiftRight_eq_div_pow]
  omega

namespace Machine

/-- A machine that differs from another at most in its timers, in its keypad and in whether there is
a frame to show. -/
def Stands (m after : Machine) : Prop :=
  ∃ delay sound redraw pressed, after = { m with delay, sound, redraw, pressed }

theorem Stands.refl (m : Machine) : m.Stands m :=
  ⟨m.delay, m.sound, m.redraw, m.pressed, rfl⟩

theorem Stands.trans {m between after : Machine} (first : m.Stands between)
    (second : between.Stands after) : m.Stands after := by
  obtain ⟨_, _, _, _, rfl⟩ := first
  obtain ⟨delay, sound, redraw, pressed, rfl⟩ := second
  exact ⟨delay, sound, redraw, pressed, rfl⟩

theorem Stands.awaiting {m after : Machine} (stands : m.Stands after) :
    after.awaiting = m.awaiting := by
  obtain ⟨_, _, _, _, rfl⟩ := stands
  rfl

theorem Stands.fetch {m after : Machine} (stands : m.Stands after) : after.fetch = m.fetch := by
  obtain ⟨_, _, _, _, rfl⟩ := stands
  rfl

theorem press_of_unknown (m : Machine) {key : UInt8} (unknown : 16 ≤ key.toNat) :
    m.press key = (m, [.unknownPress key]) := by
  have outside : ¬ key.toNat < 16 := by omega
  rw [press, dif_neg outside]

theorem press_of_ready {m : Machine} (ready : m.awaiting = none) {key : UInt8}
    (known : key.toNat < 16) :
    m.press key = ({ m with pressed := m.pressed.set key.toNat true known }, []) := by
  rw [press, dif_pos known]
  simp only [deliver, ready]

/-- A key goes to the register that waits for it. -/
theorem press_of_awaiting {m : Machine} {x : Nibble}
    (awaits : m.awaiting = some (UInt8.ofNat x.val)) {key : UInt8} (known : key.toNat < 16) :
    m.press key = ({ m with
      registers := m.registers.set x.val key
      pressed := m.pressed.set key.toNat true known
      awaiting := none }, []) := by
  have number : (UInt8.ofNat x.val).toNat = x.val := by
    rw [UInt8.toNat_ofNat']
    omega
  rw [press, dif_pos known]
  simp [deliver, awaits, number, setRegister]

theorem release_stands (m : Machine) (key : UInt8) : m.Stands (m.release key).1 := by
  obtain ⟨pressed, same⟩ := m.release_changes key
  rw [same]
  exact ⟨_, _, _, _, rfl⟩

end Machine

namespace Console

/-- What an input comes to that leaves the machine where it stands. -/
structure Idles (c : Console) (input : Input) (reply : Reply Answer) : Prop where
  answer : reply.answer = input.idleAnswer
  machine : c.machine.Stands reply.console.machine
  history : reply.console.history = c.history
  untraced : ∀ record ∈ reply.records, record.level ≠ .trace

theorem step_of_awaiting {c : Console} (awaits : c.machine.awaiting.isSome) (random : UInt8) :
    c.step random = ⟨.ok none, c, []⟩ := by
  have stood := (c.machine.step_eq_none_iff random).mpr awaits
  simp only [step, stood, Machine.told, awaits, if_true]

theorem perform_idles (c : Console) (random : UInt8) (input : Input)
    (leaves : input.leaves c.machine.awaiting.isSome) : c.Idles input (c.perform random input) := by
  cases input with
  | step =>
    simp only [perform, step_of_awaiting leaves]
    exact ⟨rfl, .refl _, rfl, by simp⟩
  | press key =>
    simp only [perform, press]
    by_cases known : key.toNat < 16
    · -- A key of the keypad leaves the machine alone only if none is awaited.
      have ready : c.machine.awaiting = none := by
        have unknown : ¬ 16 ≤ key.toNat := by omega
        simpa [Input.leaves, unknown] using leaves
      rw [Machine.press_of_ready ready known]
      exact ⟨rfl, ⟨_, _, _, _, rfl⟩, rfl, by simp⟩
    · rw [Machine.press_of_unknown _ (Nat.le_of_not_lt known)]
      exact ⟨rfl, .refl _, rfl, by simp [Record.level]⟩
  | release key =>
    refine ⟨rfl, c.machine.release_stands key, rfl, ?_⟩
    simp only [perform, release, Machine.release]
    split
    · simp
    · simp [Record.level]
  | tick => exact ⟨rfl, ⟨_, _, _, _, rfl⟩, rfl, by simp [perform]⟩
  | markShown => exact ⟨rfl, ⟨_, _, _, _, rfl⟩, rfl, by simp [perform]⟩
  | load | rewind | edit => cases leaves

/-- What a run comes to that leaves the machine where it stands. -/
structure StandsBy (c : Console) (dice : Dice) (inputs : List Input) : Prop where
  answers : (c.run dice inputs).answers = inputs.map Input.idleAnswer
  machine : c.machine.Stands (c.run dice inputs).console.machine
  history : (c.run dice inputs).console.history = c.history
  unrolled : (c.run dice inputs).dice = dice
  untraced : ∀ record ∈ (c.run dice inputs).records, record.level ≠ .trace

/-- Whether a key is awaited stays the same from one input to the next, so all of them leave the
machine alone if the first machine says so. -/
theorem run_standsBy (c : Console) (dice : Dice) (inputs : List Input)
    (leave : ∀ input ∈ inputs, input.leaves c.machine.awaiting.isSome) :
    c.StandsBy dice inputs := by
  induction inputs generalizing c with
  | nil => exact ⟨rfl, .refl _, rfl, rfl, by simp [run]⟩
  | cons input rest ih =>
    have first := c.perform_idles dice.top input (leave input List.mem_cons_self)
    -- An idle answer names no instruction, so the dice stay as they are.
    have unrolled : dice.after (c.perform dice.top input).answer.executed? = dice := by
      rw [first.answer]
      cases input <;> rfl
    have goesOn : (c.perform dice.top input).console.StandsBy dice rest := by
      refine ih _ fun later member => ?_
      rw [first.machine.awaiting]
      exact leave later (List.mem_cons_of_mem _ member)
    obtain ⟨answers, machine, history, rolled, untraced⟩ := goesOn
    constructor
    · simp only [run, unrolled]
      rw [first.answer, answers, List.map_cons]
    · simp only [run, unrolled]
      exact first.machine.trans machine
    · simp only [run, unrolled]
      exact history.trans first.history
    · simp only [run, unrolled]
      exact rolled
    · simp only [run, unrolled]
      intro record member
      rcases List.mem_append.mp member with told | later
      · exact first.untraced record told
      · exact untraced record later

/-- The step that begins a wait executes one of its opcodes and moves on. -/
theorem step_awaitKey {c : Console} {random : UInt8} {x : Nibble}
    (began : (c.step random).answer = .ok (some (.awaitKey x))) :
    c.machine.awaiting = none ∧
      (∃ op, c.machine.fetch = .ok op ∧ op.toNat = 0xF00A + 0x100 * x.val) ∧
      (c.step random).console = c.advance { c.machine with
        pc := c.machine.pc + 2
        awaiting := some (UInt8.ofNat x.val) } := by
  obtain ⟨after, stepped, console⟩ := step_executed began
  obtain ⟨ready, op, fetched, decoded, applied, works, rfl⟩ :=
    (c.machine.step_eq_some_iff _ _ _).mp stepped
  cases works
  exact ⟨by simpa using ready, ⟨op, fetched, (op.decode_eq_awaitKey_iff x).mp decoded⟩, console⟩

/-- A step that was taken back is made again. -/
theorem step_again {c : Console} {random : UInt8} {instruction : Instruction}
    (executed : (c.step random).answer = .ok (some instruction)) (history : List Machine)
    {other : UInt8} (rolled : instruction.rolls = true → other = random) :
    ((Console.mk { c.machine with redraw := true } history).step other).answer =
      .ok (some instruction) := by
  obtain ⟨after, stepped, -⟩ := step_executed executed
  have made : Machine.step other { c.machine with redraw := true } = _ :=
    Machine.step_due stepped rolled
  simp only [step, made]

/-- The key that ends a wait goes to the register that waits for it, and nothing else changes. -/
theorem press_awaited {c : Console} {x : Nibble}
    (awaits : c.machine.awaiting = some (UInt8.ofNat x.val)) {key : UInt8}
    (known : key.toNat < 16) :
    c.press key = ⟨(), ⟨{ c.machine with
      registers := c.machine.registers.set x.val key
      pressed := c.machine.pressed.set key.toNat true known
      awaiting := none }, c.history⟩, []⟩ := by
  simp only [press, Machine.press_of_awaiting awaits known]

/-- A step that begins to wait for a key leads to the next instruction. From then on steps are made
without doing anything, and no key that is down or unknown changes that. The first key that goes
down is handed to the register and ends the wait; further keys do not reach it, and the next step
fetches the next instruction. Until then a rewind takes the wait back, and a step begins it again.
-/
theorem key_wait (c : Console) (random : UInt8) (x : Nibble)
    (began : (c.step random).answer = .ok (some (.awaitKey x))) :
    let waiting := (c.step random).console
    (∃ op, c.machine.fetch = .ok op ∧ op.toNat = 0xF00A + 0x100 * x.val) ∧
      waiting.machine = { c.machine with
        pc := c.machine.pc + 2
        awaiting := some (UInt8.ofNat x.val) } ∧
      ∀ dice inputs, (∀ input ∈ inputs, input.leaves true) →
        let standing := (waiting.run dice inputs).console
        waiting.StandsBy dice inputs ∧
          (∀ key (known : key.toNat < 16),
            let served : Console := ⟨{ standing.machine with
              registers := standing.machine.registers.set x.val key
              pressed := standing.machine.pressed.set key.toNat true known
              awaiting := none }, standing.history⟩
            standing.press key = ⟨(), served, []⟩ ∧
              ∀ dice later, (∀ input ∈ later, input.leaves false) →
                let last := (served.run dice later).console.machine
                served.StandsBy dice later ∧
                  last.fetch = Machine.fetch { c.machine with pc := c.machine.pc + 2 } ∧
                  ∀ random, last.step random = do
                    let op ← last.fetch
                    return some (← last.cycle random op)) ∧
          standing.history = c.machine :: c.history.take 599 ∧
          standing.rewind = ⟨{ c.machine with redraw := true }, c.history.take 599⟩ ∧
          standing.rewind.machine.awaiting = none ∧
          ∀ random, (standing.rewind.step random).answer = .ok (some (.awaitKey x)) := by
  obtain ⟨ready, opcode, console⟩ := step_awaitKey began
  intro waiting
  have machine : waiting.machine = { c.machine with
      pc := c.machine.pc + 2
      awaiting := some (UInt8.ofNat x.val) } := congrArg Console.machine console
  have awaits : waiting.machine.awaiting = some (UInt8.ofNat x.val) := by rw [machine]
  refine ⟨opcode, machine, ?_⟩
  intro dice inputs leave standing
  have stands : waiting.StandsBy dice inputs := by
    refine waiting.run_standsBy dice inputs ?_
    rw [awaits]
    exact leave
  -- The latest past state is the one before the wait, however long that lasts.
  have history : standing.history = c.machine :: c.history.take 599 :=
    stands.history.trans (congrArg Console.history console)
  have back : standing.rewind = ⟨{ c.machine with redraw := true }, c.history.take 599⟩ := by
    simp only [rewind, history]
  refine ⟨stands, ?_, history, back, ?_, ?_⟩
  · intro key known served
    refine ⟨press_awaited (stands.machine.awaiting.trans awaits) known, ?_⟩
    intro others later leaves last
    have after : served.StandsBy others later := served.run_standsBy others later leaves
    refine ⟨after, ?_, ?_⟩
    · -- Neither the wait nor the key has touched memory or the program counter.
      rw [after.machine.fetch]
      have stood : standing.machine.fetch = waiting.machine.fetch := stands.machine.fetch
      rw [machine] at stood
      exact stood
    · intro random
      have free : last.awaiting = none := after.machine.awaiting
      simp only [Machine.step, free, Option.isSome_none, Bool.false_eq_true, if_false]
  · rw [back]
    exact ready
  · -- The state that is taken back has not begun to wait.
    intro other
    rw [back]
    exact step_again began _ fun rolls => Bool.noConfusion rolls

/-- A console that comes to a wait with a key held down. -/
def holding : Console :=
  (initial.run (.ofList []) [.load [.bytes [0xF3, 0x0A]], .press 4]).console

/-- The key held down, one that is unknown and one that comes up do not end the wait. -/
theorem key_wait_holding :
    let inputs : List Input := [.step, .tick, .press 0x14, .release 5, .step]
    let standing := ((holding.step 0).console.run (.ofList []) inputs).console
    ((holding.step 0).answer = .ok (some (.awaitKey 3)) ∧ holding.machine.pressed[4] = true ∧
      ∀ input ∈ inputs, input.leaves true) ∧
    (holding.step 0).console.StandsBy (.ofList []) inputs ∧
      (standing.press 7).console.machine.register 3 = 7 ∧
      (standing.press 7).console.machine.awaiting = none ∧
      standing.rewind.machine.awaiting = none := by
  intro inputs
  dsimp only
  have facts : (holding.step 0).answer = .ok (some (.awaitKey 3)) ∧
      holding.machine.pressed[4] = true := by
    decide +kernel
  have leave : ∀ input ∈ inputs, input.leaves true := by decide
  obtain ⟨began, held⟩ := facts
  obtain ⟨-, -, wait⟩ := key_wait holding 0 3 began
  obtain ⟨stands, serves, -, -, ended, -⟩ := wait (.ofList []) inputs leave
  obtain ⟨served, -⟩ := serves 7 (by decide)
  refine ⟨⟨began, held, leave⟩, stands, ?_, ?_, ended⟩
  · rw [served]
    simp [Machine.register, Cells.get_eq_getElem]
  · rw [served]

end Console

end Chip8
