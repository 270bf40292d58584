import Chip8.Proofs.Waiting

/-!
# Signals that meet a step

Timers and keys are served from outside, at any moment between two steps. A signal changes nothing
that steers a machine, so a step is made alike before and after it, and it does the same to what the
step leaves. The exceptions are few: an instruction that reads the delay or sets a timer while
timers run, one that asks for the key that goes down or comes up, and one that begins to wait for a
key.

`interchange_iff` says for every machine that awaits no key which opcodes those are, failing steps
included, and that there are no others.
-/

namespace Chip8

/-- What comes to a machine from outside while its program runs: the timers count down, or a key
goes down or comes up. -/
inductive Signal where
  | tick
  | key (down : Bool) (number : UInt8)
  deriving DecidableEq, Repr

/-- The register that names the key which a condition asks for. -/
def Condition.asks? : Condition → Option Nibble
  | .keyDown x | .keyUp x => some x
  | _ => none

namespace Signal

def input : Signal → Input
  | .tick => .tick
  | .key true number => .press number
  | .key false number => .release number

/-- What a signal does to a machine that awaits no key. -/
def change (signal : Signal) (m : Machine) : Machine :=
  match signal with
  | .tick => m.tick 1
  | .key down number => { m with pressed := m.pressed.setIfInBounds number.toNat down }

/-- When a signal makes a difference to an instruction, or the instruction to the signal. -/
inductive Disturbs (m : Machine) : Signal → Instruction → Prop
  | delayRead (x : Nibble) (runs : m.delay ≠ 0) : Disturbs m .tick (.readDelay x)
  | delaySet (x : Nibble) (runs : m.register x ≠ 0) : Disturbs m .tick (.setDelay x)
  | soundSet (x : Nibble) (runs : m.register x ≠ 0) : Disturbs m .tick (.setSound x)
  | keyAwaited (x : Nibble) {number : UInt8} (known : number.toNat < 16) :
      Disturbs m (.key true number) (.awaitKey x)
  | keyAsked {condition : Condition} {x : Nibble} (asks : condition.asks? = some x)
      {down : Bool} {number : UInt8} (same : (m.register x).toNat % 16 = number.toNat)
      (news : m.pressed.get (Nibble.ofByte (m.register x)) ≠ down) :
      Disturbs m (.key down number) (.skip condition)

theorem change_veil (signal : Signal) : Machine.Veil signal.change := by
  cases signal <;>
    exact ⟨fun _ => rfl, fun _ => rfl, fun _ => rfl, fun _ => rfl, fun _ => rfl, fun _ => rfl,
      fun _ => rfl⟩

/-- Counting down does not move a timer that has run out, and moves every other. -/
theorem countDown_eq_iff (count : UInt8) : UInt8.ofNat (count.toNat - 1) = count ↔ count = 0 := by
  have bound := count.toNat_lt
  have zero : (0 : UInt8).toNat = 0 := rfl
  rw [← UInt8.toNat_inj, ← UInt8.toNat_inj, UInt8.toNat_ofNat', zero]
  omega

theorem get_change (m : Machine) (down : Bool) (number : UInt8) (digit : Nibble) :
    (change (.key down number) m).pressed.get digit =
      if number.toNat = digit.val then down else m.pressed.get digit := by
  simp only [change, Cells.get_eq_getElem, Vector.getElem_setIfInBounds]

/-- The answer to a condition changes if and only if the signal is news about the key it asks for.
-/
theorem holds_change_iff {condition : Condition} {x : Nibble} (asks : condition.asks? = some x)
    (m : Machine) (down : Bool) (number : UInt8) :
    condition.holds (change (.key down number) m) = condition.holds m ↔
      ¬ ((m.register x).toNat % 16 = number.toNat ∧
        m.pressed.get (Nibble.ofByte (m.register x)) ≠ down) := by
  have asked : (change (.key down number) m).pressed.get (Nibble.ofByte (m.register x)) =
      m.pressed.get (Nibble.ofByte (m.register x)) ↔
        ¬ ((m.register x).toNat % 16 = number.toNat ∧
          m.pressed.get (Nibble.ofByte (m.register x)) ≠ down) := by
    rw [get_change, not_and, not_ne_iff]
    split
    next same => exact ⟨fun old _ => old.symm, fun old => (old same.symm).symm⟩
    next other => exact iff_of_true rfl fun same => absurd same.symm other
  cases condition with
  | keyDown y =>
    cases asks
    exact asked
  | keyUp y =>
    cases asks
    exact Bool.not_inj_iff.trans asked
  | _ => cases asks

/-- An instruction that is not disturbed comes to the same before and after a signal. -/
theorem outcome_change {signal : Signal} {instruction : Instruction} {m : Machine}
    (apart : ¬ signal.Disturbs m instruction) (random : UInt8) :
    (signal.change m).outcome random instruction =
      signal.change (m.outcome random instruction) := by
  cases signal with
  | tick =>
    cases instruction with
    | readDelay x =>
      -- A delay that has run out reads the same whenever it is read.
      have stopped : m.delay = 0 := not_ne_iff.mp fun runs => apart (.delayRead x runs)
      have kept : (change .tick m).delay = m.delay := (countDown_eq_iff _).mpr stopped
      have registers : (change .tick m).registersAfter random (.readDelay x) =
          m.registersAfter random (.readDelay x) := by
        simp only [Machine.registersAfter, kept]
        rfl
      simp only [Machine.outcome, registers]
      rfl
    -- A timer that is set to zero is not counted down afterwards.
    | setDelay x =>
      have empty : m.register x = 0 := not_ne_iff.mp fun runs => apart (.delaySet x runs)
      have kept := (countDown_eq_iff _).mpr empty
      exact congrArg
        (fun delay => { change .tick (m.outcome random (.setDelay x)) with delay }) kept.symm
    | setSound x =>
      have empty : m.register x = 0 := not_ne_iff.mp fun runs => apart (.soundSet x runs)
      have kept := (countDown_eq_iff _).mpr empty
      exact congrArg
        (fun sound => { change .tick (m.outcome random (.setSound x)) with sound }) kept.symm
    | skip condition => cases condition <;> rfl
    | arithmetic operation x y => cases operation <;> rfl
    | _ => rfl
  | key down number =>
    cases instruction with
    | skip condition =>
      have holds : condition.holds (change (.key down number) m) = condition.holds m := by
        cases asks : condition.asks? with
        | some x =>
          exact (holds_change_iff asks m down number).mpr fun both =>
            apart (.keyAsked asks both.1 both.2)
        | none =>
          cases condition with
          | keyDown | keyUp => cases asks
          | _ => rfl
      exact congrArg (fun leaps =>
        { change (.key down number) (m.outcome random (.skip condition)) with
          pc := m.pc + if leaps then 4 else 2 }) holds
    | arithmetic operation x y => cases operation <;> rfl
    | _ => rfl

end Signal

namespace Console

/-- Only a key of the keypad that goes down meets a wait, so without one a signal is its change. -/
theorem perform_signal (c : Console) (random : UInt8) {signal : Signal}
    (idle : c.machine.awaiting = none ∨ ∀ number, signal = .key true number → 16 ≤ number.toNat) :
    (c.perform random signal.input).console = ⟨signal.change c.machine, c.history⟩ := by
  cases signal with
  | tick => rfl
  | key down number =>
    by_cases known : number.toNat < 16
    · have inside : c.machine.pressed.set number.toNat down =
          c.machine.pressed.setIfInBounds number.toNat down := by
        simp [← Vector.toArray_inj, Array.setIfInBounds_def, known]
      cases down with
      | true =>
        have ready : c.machine.awaiting = none :=
          idle.resolve_right fun unknown => Nat.not_le_of_lt known (unknown number rfl)
        simp only [Signal.input, perform, press, Machine.press_of_ready ready known, inside]
        rfl
      | false =>
        simp only [Signal.input, perform, release, Machine.release, dif_pos known, inside]
        rfl
    · -- A key that the keypad does not have changes nothing, as a signal and as an input.
      have outside : c.machine.pressed.setIfInBounds number.toNat down = c.machine.pressed := by
        simp [← Vector.toArray_inj, Array.setIfInBounds_def, known]
      have still : Signal.change (.key down number) c.machine = c.machine := by
        simp only [Signal.change, outside]
      rw [still]
      cases down with
      | true =>
        simp only [Signal.input, perform, press,
          Machine.press_of_unknown _ (Nat.le_of_not_lt known)]
      | false => simp only [Signal.input, perform, release, Machine.release, dif_neg known]

/-- A step and a signal come to the same in either order: the step gets the same answer, and the
machine is the same after both. -/
def Interchange (c : Console) (random : UInt8) (signal : Signal) : Prop :=
  ((c.perform random signal.input).console.step random).answer = (c.step random).answer ∧
    ((c.perform random signal.input).console.step random).console.machine =
      ((c.step random).console.perform random signal.input).console.machine

/-- After an instruction a signal is its change, unless the instruction begins a wait that it ends.
-/
theorem perform_signal_outcome {signal : Signal} {instruction : Instruction} {m : Machine}
    (ready : m.awaiting = none) (history : List Machine) (random : UInt8)
    (idle : (∀ x, instruction ≠ .awaitKey x) ∨
      ∀ number, signal = .key true number → 16 ≤ number.toNat) :
    ((Console.mk ((m.outcome random instruction).resume instruction) history).perform random
        signal.input).console.machine =
      (signal.change (m.outcome random instruction)).resume instruction := by
  rw [perform_signal]
  · exact signal.change_veil.resume _ _
  · cases instruction with
    | awaitKey x => exact .inr (idle.resolve_left fun other => other x rfl)
    | _ => exact .inl ready

theorem outcome_disturbed {signal : Signal} {instruction : Instruction} {m : Machine}
    (ready : m.awaiting = none) (disturbs : signal.Disturbs m instruction) (history : List Machine)
    (random : UInt8) :
    ((signal.change m).outcome random instruction).resume instruction ≠
      ((Console.mk ((m.outcome random instruction).resume instruction) history).perform random
        signal.input).console.machine := by
  -- In each case one field tells the two orders apart.
  cases disturbs with
  | delayRead x runs =>
    rw [perform_signal_outcome ready history random (.inl (by simp))]
    intro same
    have read := congrArg (fun after : Machine => after.register x) same
    simp only [Machine.resume, Machine.outcome, Machine.registersAfter, Machine.setRegister,
      Machine.register, Signal.change, Machine.tick, Cells.get_eq_getElem, Vector.getElem_set_self]
      at read
    exact runs ((Signal.countDown_eq_iff _).mp read)
  | delaySet x runs =>
    rw [perform_signal_outcome ready history random (.inl (by simp))]
    intro same
    exact runs ((Signal.countDown_eq_iff _).mp (congrArg Machine.delay same).symm)
  | soundSet x runs =>
    rw [perform_signal_outcome ready history random (.inl (by simp))]
    intro same
    exact runs ((Signal.countDown_eq_iff _).mp (congrArg Machine.sound same).symm)
  | keyAwaited x known =>
    -- The key ends the wait only if it comes after the instruction that begins it.
    intro same
    have awaits := congrArg Machine.awaiting same
    simp only [Signal.input, perform, press] at awaits
    rw [Machine.press_of_awaiting (x := x) rfl known] at awaits
    cases awaits
  | @keyAsked condition x asks down number same news =>
    rw [perform_signal_outcome ready history random (.inl (by simp))]
    intro equal
    have leaps : m.pc + (if condition.holds (Signal.change (.key down number) m) then 4 else 2) =
        m.pc + if condition.holds m then 4 else 2 := congrArg Machine.pc equal
    -- Two and four apart, the program counters tell what the condition has answered.
    have holds : condition.holds (Signal.change (.key down number) m) = condition.holds m := by
      rw [UInt16.add_right_inj] at leaps
      revert leaps
      cases condition.holds (Signal.change (.key down number) m) <;> cases condition.holds m <;>
        decide
    exact (Signal.holds_change_iff asks m down number).mp holds ⟨same, news⟩

end Console

namespace Signal

/-- The opcodes that a signal cannot change places with, and when. -/
inductive Clashes (m : Machine) (op : Opcode) : Signal → Prop
  | delayRead (reads : op.family = 0xF ∧ op.kk = 0x07) (runs : m.delay ≠ 0) : Clashes m op .tick
  | timerSet (sets : op.family = 0xF ∧ (op.kk = 0x15 ∨ op.kk = 0x18))
      (runs : m.register op.x ≠ 0) : Clashes m op .tick
  | keyAwaited {number : UInt8} (awaits : op.family = 0xF ∧ op.kk = 0x0A)
      (known : number.toNat < 16) : Clashes m op (.key true number)
  | keyAsked {down : Bool} {number : UInt8}
      (asks : op.family = 0xE ∧ (op.kk = 0x9E ∨ op.kk = 0xA1))
      (same : (m.register op.x).toNat % 16 = number.toNat)
      (news : m.pressed.get (Nibble.ofByte (m.register op.x)) ≠ down) :
      Clashes m op (.key down number)

theorem asks_of_decode {op : Opcode} {condition : Condition} {x : Nibble}
    (asks : condition.asks? = some x) (decoded : op.decode = .ok (.skip condition)) :
    (op.family = 0xE ∧ (op.kk = 0x9E ∨ op.kk = 0xA1)) ∧ op.x = x := by
  cases condition with
  | keyDown y =>
    cases asks
    have opcode : (op.family = 0xE ∧ op.kk = 0x9E) ∧ op.x = x :=
      (op.decode_eq_iff_of_byte rfl).mp decoded
    exact ⟨opcode.1.imp_right .inl, opcode.2⟩
  | keyUp y =>
    cases asks
    have opcode : (op.family = 0xE ∧ op.kk = 0xA1) ∧ op.x = x :=
      (op.decode_eq_iff_of_byte rfl).mp decoded
    exact ⟨opcode.1.imp_right .inr, opcode.2⟩
  | _ => cases asks

theorem Disturbs.clashes {m : Machine} {op : Opcode} {signal : Signal} {instruction : Instruction}
    (decoded : op.decode = .ok instruction) (disturbs : signal.Disturbs m instruction) :
    signal.Clashes m op := by
  cases disturbs with
  | delayRead x runs =>
    have opcode : (op.family = 0xF ∧ op.kk = 0x07) ∧ op.x = x :=
      (op.decode_eq_iff_of_byte rfl).mp decoded
    exact .delayRead opcode.1 runs
  | delaySet x runs =>
    have opcode : (op.family = 0xF ∧ op.kk = 0x15) ∧ op.x = x :=
      (op.decode_eq_iff_of_byte rfl).mp decoded
    obtain ⟨⟨last, low⟩, rfl⟩ := opcode
    exact .timerSet ⟨last, .inl low⟩ runs
  | soundSet x runs =>
    have opcode : (op.family = 0xF ∧ op.kk = 0x18) ∧ op.x = x :=
      (op.decode_eq_iff_of_byte rfl).mp decoded
    obtain ⟨⟨last, low⟩, rfl⟩ := opcode
    exact .timerSet ⟨last, .inr low⟩ runs
  | keyAwaited x known =>
    have opcode : (op.family = 0xF ∧ op.kk = 0x0A) ∧ op.x = x :=
      (op.decode_eq_iff_of_byte rfl).mp decoded
    exact .keyAwaited opcode.1 known
  | keyAsked asks same news =>
    obtain ⟨opcode, rfl⟩ := asks_of_decode asks decoded
    exact .keyAsked opcode same news

/-- An opcode that a signal clashes with is executed, since its instruction has no check. -/
theorem Clashes.disturbs {m : Machine} {op : Opcode} {signal : Signal}
    (clashes : signal.Clashes m op) :
    ∃ instruction, op.decode = .ok instruction ∧ m.fault? instruction = none ∧
      signal.Disturbs m instruction := by
  cases clashes with
  | delayRead reads runs =>
    exact ⟨.readDelay op.x, (op.decode_eq_iff_of_byte rfl).mpr ⟨reads, rfl⟩, rfl, .delayRead _ runs⟩
  | timerSet sets runs =>
    obtain ⟨last, low | low⟩ := sets
    · exact ⟨.setDelay op.x, (op.decode_eq_iff_of_byte rfl).mpr ⟨⟨last, low⟩, rfl⟩, rfl,
        .delaySet _ runs⟩
    · exact ⟨.setSound op.x, (op.decode_eq_iff_of_byte rfl).mpr ⟨⟨last, low⟩, rfl⟩, rfl,
        .soundSet _ runs⟩
  | keyAwaited awaits known =>
    exact ⟨.awaitKey op.x, (op.decode_eq_iff_of_byte rfl).mpr ⟨awaits, rfl⟩, rfl,
      .keyAwaited _ known⟩
  | keyAsked asks same news =>
    obtain ⟨first, low | low⟩ := asks
    · exact ⟨.skip (.keyDown op.x), (op.decode_eq_iff_of_byte rfl).mpr ⟨⟨first, low⟩, rfl⟩, rfl,
        .keyAsked rfl same news⟩
    · exact ⟨.skip (.keyUp op.x), (op.decode_eq_iff_of_byte rfl).mpr ⟨⟨first, low⟩, rfl⟩, rfl,
        .keyAsked rfl same news⟩

end Signal

namespace Console

/-- On a machine that awaits no key a step and a signal change places, unless the opcode that is due
clashes with the signal. -/
theorem interchange_iff {c : Console} (ready : c.machine.awaiting = none) (random : UInt8)
    (signal : Signal) :
    c.Interchange random signal ↔
      ¬ ∃ op, c.machine.fetch = .ok op ∧ signal.Clashes c.machine op := by
  have served : (c.perform random signal.input).console = ⟨signal.change c.machine, c.history⟩ :=
    c.perform_signal random (.inl ready)
  have abreast : c.machine.Abreast (signal.change c.machine) :=
    ⟨signal.change_veil.awaiting _, signal.change_veil.fetch _, signal.change_veil.fault? _⟩
  obtain ⟨answer, moved⟩ :=
    step_abreast (d := ⟨signal.change c.machine, c.history⟩) abreast random
  unfold Interchange
  rw [served, and_iff_right answer]
  obtain ⟨idle, stays, remains⟩ | ⟨instruction, executed, -, after, last⟩ := moved
  · -- Neither a fault nor its cause is changed by the signal, and no such opcode clashes with it.
    rw [stays, remains, served]
    refine iff_of_true rfl ?_
    rintro ⟨op, fetched, clashes⟩
    obtain ⟨instruction, decoded, free, -⟩ := clashes.disturbs
    exact idle instruction (step_of_free ready fetched decoded free random)
  · rw [after, last]
    obtain ⟨reached, stepped, -⟩ := step_executed executed
    obtain ⟨-, op, fetched, decoded, -⟩ := (c.machine.step_eq_some_iff _ _ _).mp stepped
    have clash : (∃ op, c.machine.fetch = .ok op ∧ signal.Clashes c.machine op) ↔
        signal.Disturbs c.machine instruction := by
      constructor
      · rintro ⟨found, same, clashes⟩
        rw [fetched] at same
        cases same
        obtain ⟨meant, means, -, disturbs⟩ := clashes.disturbs
        rw [decoded] at means
        cases means
        exact disturbs
      · exact fun disturbs => ⟨op, fetched, disturbs.clashes decoded⟩
    rw [clash]
    constructor
    · exact fun same disturbs => outcome_disturbed ready disturbs _ random same
    · intro apart
      unfold advance
      dsimp only
      rw [Signal.outcome_change apart random]
      refine (perform_signal_outcome ready _ random ?_).symm
      by_cases waits : ∃ x, instruction = .awaitKey x
      · obtain ⟨x, rfl⟩ := waits
        refine .inr fun number down => Nat.le_of_not_lt fun known => apart ?_
        rw [down]
        exact .keyAwaited x known
      · exact .inl fun x same => waits ⟨x, same⟩

/-- The timers count down alike before and after a key, on every machine. -/
theorem tick_key (c : Console) (random : UInt8) (down : Bool) (number : UInt8) :
    let key := Signal.input (.key down number)
    (c.tick 1).perform random key =
      let reply := c.perform random key
      { reply with console := reply.console.tick 1 } := by
  cases down with
  | true =>
    simp only [Signal.input, perform, press, Machine.press, tick, edit]
    split
    · unfold Machine.deliver Machine.tick
      dsimp only
      split
      · rfl
      · split <;> rfl
    · rfl
  | false =>
    simp only [Signal.input, perform, release, Machine.release, tick, edit]
    split <;> rfl

end Console

end Chip8
