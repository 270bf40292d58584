import Chip8.Proofs.Procedure.Word

/-!
# No procedure gets stuck

Whatever can be done to a console is carried out here with every check in its place: keys, timers,
taking back and loading next to opcodes and cycles. A procedure may be refused, and then the program
is at fault; it never gets stuck, which would be a fault of the machine itself.

Nothing is assumed of the state. The stack pointer may be anywhere, the index and the program
counter may lie beyond memory, a register may be awaited that does not exist and the history may be
too long: each check passes because of a test that comes before it, or because of the width of a
number.

## Main result

`never_stuck`: no opcode, cycle, key, tick, rewind or rom makes a procedure stuck, in any state, and
each procedure comes to what the console says at once.
-/

namespace Chip8

/-- A store with another console and the same dice. -/
def Store.withConsole (s : Store) (c : Console) : Store :=
  { s with toConsole := c }

namespace Procedure

/-! ### Operations on a console -/

def press (key : UInt8) : Procedure Unit :=
  if 0xF < key then
    pure ()
  else do
    let pressed ← need (Cells.set? (← machine).pressed key.toNat true)
    change ({ · with pressed })
    match (← machine).awaiting with
    | none => pure ()
    | some x => do
      -- The wait is over before it is known whether there is such a register.
      change ({ · with awaiting := none })
      if 0xF < x then pure () else setRegister x.toNat key

def release (key : UInt8) : Procedure Unit :=
  if 0xF < key then
    pure ()
  else do
    let pressed ← need (Cells.set? (← machine).pressed key.toNat false)
    change ({ · with pressed })

/-- Subtraction stops at zero, so there is nothing to check. -/
def tick : Procedure Unit := do
  change fun m => { m with delay := UInt8.ofNat (m.delay.toNat - 1) }
  change fun m => { m with sound := UInt8.ofNat (m.sound.toNat - 1) }

def rewind : Procedure Unit := do
  match (← get).history with
  | [] => pure ()
  | latest :: older => do
    modify fun s => { s with machine := latest, history := older }
    change ({ · with redraw := true })

/-- The whole rom is read, however long it is, and only then judged. -/
def load (pieces : List Rom.Piece) : Procedure (Except Rom.Error Nat) :=
  match Rom.gather pieces with
  | .error reason => return .error (.unreadable reason)
  | .ok rom => do
    let limit ← minus Memory.size Memory.programStart.toNat
    if limit < rom.length then
      return .error (.tooLarge rom.length limit)
    else do
      let stop ← fit UInt64.size (Memory.programStart.toNat + rom.length)
      let memory ← need (Cells.copy? (← machine).memory Memory.programStart.toNat stop rom)
      change ({ · with memory })
      return .ok rom.length

/-! ### What they come to -/

theorem last_lt_iff (byte : UInt8) : 0xF < byte ↔ ¬ byte.toNat < 16 :=
  Iff.trans Iff.rfl Nat.not_lt.symm

theorem run_press (key : UInt8) (s : Store) :
    (press key).run s = .ok () (s.withConsole (s.toConsole.press key).console) := by
  unfold press Console.press Machine.press
  by_cases known : key.toNat < 16
  · simp only [last_lt_iff, known, not_true_eq_false, if_false, dite_true, EStateM.run_bind,
      run_machine, Cells.set?, run_need_some, run_change]
    unfold Machine.deliver
    cases s.machine.awaiting with
    | none => rfl
    | some x =>
      by_cases there : x.toNat < 16
      · have written : ∀ s, (setRegister x.toNat key).run s = _ :=
          run_setRegister ⟨x.toNat, there⟩ key
        simp only [there, not_true_eq_false, if_false, dite_true, EStateM.run_bind, run_change,
          written]
        rfl
      · -- The key is lost, but the wait is over.
        simp only [there, not_false_eq_true, if_true, dite_false, EStateM.run_bind, run_change]
        rfl
  · simp only [last_lt_iff, known, not_false_eq_true, if_true, dite_false]
    rfl

theorem run_release (key : UInt8) (s : Store) :
    (release key).run s = .ok () (s.withConsole (s.toConsole.release key).console) := by
  unfold release Console.release Machine.release
  by_cases known : key.toNat < 16
  · simp only [last_lt_iff, known, not_true_eq_false, if_false, dite_true, EStateM.run_bind,
      run_machine, Cells.set?, run_need_some, run_change]
    rfl
  · simp only [last_lt_iff, known, not_false_eq_true, if_true, dite_false]
    rfl

theorem run_tick (s : Store) : tick.run s = .ok () (s.withConsole (s.toConsole.tick 1)) :=
  rfl

theorem run_rewind (s : Store) : rewind.run s = .ok () (s.withConsole s.toConsole.rewind) := by
  obtain ⟨⟨machine, history⟩, dice⟩ := s
  cases history with
  | nil => rfl
  | cons latest older => rfl

/-- A rom that is not too large ends where memory does, at the latest. -/
theorem run_load (pieces : List Rom.Piece) (s : Store) :
    (load pieces).run s =
      .ok (s.toConsole.load pieces).answer (s.withConsole (s.toConsole.load pieces).console) := by
  unfold load Console.load Rom.read
  cases Rom.gather pieces with
  | error reason => rfl
  | ok rom =>
    have room : Memory.programStart.toNat ≤ Memory.size := by decide
    simp only [EStateM.run_bind, run_minus room]
    change (if Memory.programSize < rom.length then _ else _ : Procedure _).run s = _
    by_cases fits : rom.length ≤ Memory.programSize
    · have inside : Memory.programStart.toNat + rom.length ≤ 4096 := Nat.add_le_of_le_sub' room fits
      simp only [fits, Nat.not_lt.mpr fits, if_true, if_false, EStateM.run_bind,
        run_fit (lt_size (Nat.lt_of_le_of_lt inside (by decide))), run_machine,
        Cells.copy?_eq _ _ inside rfl, run_need_some, run_change]
      rfl
    · simp only [fits, Nat.lt_of_not_le fits, if_true, if_false]
      rfl

/-- After a cycle the console is the one after a step. -/
theorem toConsole_cycle {s after : Store} (kept : s.history.length ≤ Console.historyLimit)
    (ran : cycle.run s = .ok () after) :
    after.toConsole = (s.toConsole.step s.dice.top).console := by
  have stepped := ((congrFun cycle_eq s).trans (run_step s)).symm.trans ran
  unfold Console.step
  cases done : s.machine.step s.dice.top with
  | error fault => simp [done, Except.map, Store.settle] at stepped
  | ok result =>
    rcases result with _ | ⟨executed, reached⟩
    · simp only [done, Except.map, Store.settle, EStateM.Result.ok.injEq, true_and] at stepped
      rw [← stepped]
    · simp only [done, Except.map, Store.settle, EStateM.Result.ok.injEq, true_and] at stepped
      rw [← stepped, s.move_toConsole executed reached kept]

/-! ### Safety -/

/-- A procedure that may be refused but never gets stuck. -/
def Safe {α : Type} (work : Procedure α) : Prop :=
  ∀ s after, work.run s ≠ .error .stuck after

theorem safe_of_ok {α : Type} {work : Procedure α}
    (done : ∀ s, ∃ value after, work.run s = .ok value after) : work.Safe := by
  intro s after stuck
  obtain ⟨value, reached, ran⟩ := done s
  rw [ran] at stuck
  cases stuck

theorem safe_of_settle {work : Procedure Unit} {result : Store → Except Fault Store}
    (settled : ∀ s, work.run s = s.settle (result s)) : work.Safe := by
  intro s after stuck
  rw [settled s] at stuck
  cases settling : result s with
  | ok reached => simp [settling, Store.settle] at stuck
  | error cause => simp [settling, Store.settle] at stuck

/-- No opcode, cycle, key, tick, rewind or rom makes a procedure stuck, in any state: whatever is
indexed, sliced, copied, added, subtracted, multiplied or shifted passes its check. What is done
piece by piece is what the machine and the console do at once; a cycle drops the oldest state first
and the console last, which comes to the same for any history that is not too long already. -/
theorem never_stuck (op : Opcode) (count key : UInt8) (pieces : List Rom.Piece) :
    ((lastNibbles op count).Safe ∧ (dispatch op).Safe ∧ cycle.Safe ∧ (press key).Safe ∧
      (release key).Safe ∧ tick.Safe ∧ rewind.Safe ∧ (load pieces).Safe) ∧
    ∀ s : Store,
      let c := s.toConsole
      (lastNibbles op count).run s = .ok (UInt16.ofNat (op.lastNibbles count.toNat)) s ∧
      (dispatch op).run s = s.settle ((s.machine.execute s.dice.top op).map fun done =>
        s.put done.1 done.2) ∧
      cycle.run s = s.settle ((s.machine.step s.dice.top).map fun
        | none => s
        | some (executed, after) => s.move executed after) ∧
      (s.history.length ≤ Console.historyLimit → ∀ after, cycle.run s = .ok () after →
        after.toConsole = (c.step s.dice.top).console) ∧
      (press key).run s = .ok () (s.withConsole (c.press key).console) ∧
      (release key).run s = .ok () (s.withConsole (c.release key).console) ∧
      tick.run s = .ok () (s.withConsole (c.tick 1)) ∧
      rewind.run s = .ok () (s.withConsole c.rewind) ∧
      (load pieces).run s =
        .ok (c.load pieces).answer (s.withConsole (c.load pieces).console) := by
  -- One equation a procedure gives its result, and shows by the way that it has one.
  have dispatched := fun s => (congrFun (dispatch_eq op) s).trans (run_execute op s)
  have cycled := fun s => (congrFun cycle_eq s).trans (run_step s)
  refine ⟨⟨?_, ?_, ?_, ?_, ?_, ?_, ?_, ?_⟩, fun s => ⟨?_, ?_, ?_, ?_, ?_, ?_, ?_, ?_, ?_⟩⟩
  · exact safe_of_ok fun s => ⟨_, _, run_lastNibbles op count s⟩
  · exact safe_of_settle dispatched
  · exact safe_of_settle cycled
  · exact safe_of_ok fun s => ⟨_, _, run_press key s⟩
  · exact safe_of_ok fun s => ⟨_, _, run_release key s⟩
  · exact safe_of_ok fun s => ⟨_, _, run_tick s⟩
  · exact safe_of_ok fun s => ⟨_, _, run_rewind s⟩
  · exact safe_of_ok fun s => ⟨_, _, run_load pieces s⟩
  · exact run_lastNibbles op count s
  · exact dispatched s
  · exact cycled s
  · exact fun kept after ran => toConsole_cycle kept ran
  · exact run_press key s
  · exact run_release key s
  · exact run_tick s
  · exact run_rewind s
  · exact run_load pieces s

/-- There is no register after the last one. -/
example : ¬ (setRegister 16 0).Safe :=
  fun safe => safe ⟨Console.initial, Dice.ofList []⟩ _ rfl

end Procedure

end Chip8
