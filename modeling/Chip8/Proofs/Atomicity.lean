import Chip8.Proofs.Procedure.Agreement

/-!
# Failures are atomic

An opcode fails when the machine refuses it, with the fault that `Refuses` gives, and nothing is
changed by then. The first half is about the machine; the second is about the procedures, which
write piece by piece and could leave half their work behind.

## Main result

`failure_atomic`: for every opcode and every state, executing fails exactly for the reasons listed
and leaves machine, history and dice alone. A step fails exactly when the machine halts, never
while a key is awaited, and leaves them alone as well.
-/

namespace Chip8

/-- A procedure that ends early for the given reasons only, with the store as it was. -/
def Procedure.FailsAtomically (work : Procedure Unit) (s : Store) (reason : Fault → Prop) : Prop :=
  ∀ stop after, work.run s = .error stop after ↔
    after = s ∧ ∃ fault, stop = .fault fault ∧ reason fault

theorem Procedure.failsAtomically_of_settle {work : Procedure Unit} {s : Store}
    {result : Except Fault Store} {reason : Fault → Prop} (settled : work.run s = s.settle result)
    (reasons : ∀ fault, result = .error fault ↔ reason fault) : work.FailsAtomically s reason := by
  intro stop after
  rw [settled]
  simp only [← reasons]
  cases result with
  | ok done => simp [Store.settle]
  | error cause =>
    simp only [Store.settle, EStateM.Result.error.injEq, Except.error.injEq, exists_eq_right']
    constructor
    · rintro ⟨rfl, rfl⟩
      exact ⟨rfl, rfl⟩
    · rintro ⟨rfl, rfl⟩
      exact ⟨rfl, rfl⟩

theorem map_eq_error_iff {α β : Type} (result : Except Fault α) (f : α → β) (fault : Fault) :
    result.map f = .error fault ↔ result = .error fault := by
  cases result <;> simp [Except.map]

theorem Procedure.execute_failsAtomically (op : Opcode) (s : Store) :
    (execute op).FailsAtomically s (s.machine.Refuses op) :=
  failsAtomically_of_settle (run_execute op s) fun fault =>
    (map_eq_error_iff _ _ fault).trans (s.machine.execute_eq_error_iff s.dice.top op fault)

theorem Procedure.step_failsAtomically (s : Store) : step.FailsAtomically s s.machine.Halts :=
  failsAtomically_of_settle (run_step s) fun fault =>
    (map_eq_error_iff _ _ fault).trans (s.machine.step_eq_error_iff_halts s.dice.top fault)

namespace Console

theorem step_answer_eq_error_iff (c : Console) (random : UInt8) (fault : Fault) :
    (c.step random).answer = .error fault ↔ c.machine.Halts fault := by
  rw [← c.machine.step_eq_error_iff_halts random fault, step]
  split
  next cause failed => simp [failed]
  next stood => simp [stood]
  next executed => simp [executed]

theorem step_console_of_error {c : Console} {random : UInt8} {fault : Fault}
    (failed : (c.step random).answer = .error fault) : (c.step random).console = c := by
  unfold step at failed ⊢
  split at failed
  next => rfl
  next => cases failed
  next => cases failed

/-- Executing an opcode fails for the reasons that `Refuses` lists and for no other, and so does a
step for those of `Halts`; while a key is awaited a step succeeds. Whatever fails leaves machine,
history and dice as they were, although it is carried out piece by piece. -/
theorem failure_atomic (s : Store) :
    (∀ op random fault, s.machine.execute random op = .error fault ↔ s.machine.Refuses op fault) ∧
      (∀ op, (Procedure.execute op).FailsAtomically s (s.machine.Refuses op)) ∧
      (s.machine.awaiting.isSome → (∀ random, (s.toConsole.step random).answer = .ok none) ∧
        Procedure.step.run s = .ok () s) ∧
      (∀ random fault, ((s.toConsole.step random).answer = .error fault ↔ s.machine.Halts fault) ∧
        ((s.toConsole.step random).answer = .error fault →
          (s.toConsole.step random).console = s.toConsole)) ∧
      Procedure.step.FailsAtomically s s.machine.Halts := by
  refine ⟨fun op random fault => s.machine.execute_eq_error_iff random op fault,
    fun op => Procedure.execute_failsAtomically op s, fun waits => ⟨fun random => ?_, ?_⟩,
    fun random fault => ⟨step_answer_eq_error_iff _ random fault, step_console_of_error⟩,
    Procedure.step_failsAtomically s⟩
  · have stood := (s.machine.step_eq_none_iff random).mpr waits
    simp [step, stood]
  · rw [Procedure.run_step, (s.machine.step_eq_none_iff _).mpr waits]
    rfl

end Console

end Chip8
