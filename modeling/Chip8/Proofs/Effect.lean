import Chip8.Machine.Cycle

/-!
# What an instruction does to a machine

Most instructions cannot fail. The others check first and then do all their work, so each of them
is an equivalence: it ends in a machine if and only if its check passes, and in that machine alone.
From these equivalences `Instruction.apply_changes` says once, for every instruction, where the
machine goes on and what becomes of its stack, its screen and its wait for a key.
-/

namespace Chip8

theorem bind_eq_ok_iff {ε α β : Type} (first : Except ε α) (second : α → Except ε β) (result : β) :
    (first >>= second) = .ok result ↔ ∃ found, first = .ok found ∧ second found = .ok result := by
  cases first <;> simp [bind, Except.bind]

theorem bind_eq_error_iff {α β : Type} (first : Except Fault α) (second : α → Except Fault β)
    (fault : Fault) :
    (first >>= second) = .error fault ↔
      first = .error fault ∨ ∃ found, first = .ok found ∧ second found = .error fault := by
  cases first <;> simp [bind, Except.bind]

namespace Machine

theorem enter_eq_ok_iff (m after : Machine) (target : Address) :
    m.enter target = .ok after ↔
      ∃ room : m.sp.toNat < 16, after = { m with
        stack := m.stack.set m.sp.toNat m.pc
        sp := m.sp + 1
        pc := UInt16.ofNat target.val } := by
  unfold enter
  split
  next room => simp [room, eq_comm]
  next full => simp [full]

theorem leave_eq_ok_iff (m after : Machine) :
    m.leave = .ok after ↔
      m.sp ≠ 0 ∧ ∃ held : m.sp.toNat - 1 < 16, after = { m with
        sp := m.sp - 1
        pc := m.stack[m.sp.toNat - 1] } := by
  unfold leave
  split
  next bottom => simp [bottom]
  next above =>
    split
    next held => simp [above, held, eq_comm]
    next beyond => simp [beyond]

theorem skipIf_eq (m : Machine) (condition : Bool) :
    m.skipIf condition = { m with pc := m.pc + if condition then 4 else 2 } := by
  cases condition <;> rfl

/-- A two-register operation changes registers, moves on and does nothing else. -/
theorem calculate_eq (m : Machine) (operation : Arithmetic) (x y : Nibble) :
    ∃ registers, m.calculate operation x y = { m with registers, pc := m.pc + 2 } := by
  unfold calculate
  dsimp only
  split
  · exact ⟨_, rfl⟩
  · exact ⟨_, rfl⟩

/-- The flag is written last, if the operation has one. -/
theorem register_calculate (m : Machine) (operation : Arithmetic) (x y z : Nibble) :
    (m.calculate operation x y).register z =
      match operation.flag? (m.register x) (m.register y) with
      | some flag =>
        if z = Nibble.last then if flag then 1 else 0
        else if z = x then operation.result (m.register x) (m.register y)
        else m.register z
      | none => if z = x then operation.result (m.register x) (m.register y) else m.register z := by
  cases flagged : operation.flag? (m.register x) (m.register y) with
  | none =>
    simp only [calculate, flagged]
    exact register_setRegister m x z _
  | some flag =>
    simp only [calculate, flagged]
    refine (register_setRegister _ Nibble.last z _).trans ?_
    rw [register_setRegister]

/-- The address in the topmost used slot of the stack. -/
def caller (m : Machine) : UInt16 :=
  m.stack[m.sp.toNat - 1]?.getD 0

/-- Where an instruction leads. A return leads to its call. -/
def target (m : Machine) : Instruction → UInt16
  | .ret => m.caller
  | .jump target | .call target => UInt16.ofNat target.val
  | .jumpOffset target => UInt16.ofNat ((m.register Nibble.first).toNat + target.val)
  | .skip condition => m.pc + if condition.holds m then 4 else 2
  | _ => m.pc + 2

/-- The stack after an instruction: a call fills the next free slot. -/
def stackAfter (m : Machine) : Instruction → Vector UInt16 16
  | .call _ => m.stack.setIfInBounds m.sp.toNat m.pc
  | _ => m.stack

def spAfter (m : Machine) : Instruction → UInt8
  | .call _ => m.sp + 1
  | .ret => m.sp - 1
  | _ => m.sp

theorem toNat_spAfter_call (m : Machine) (target : Address) (room : m.sp.toNat < 16) :
    (m.spAfter (.call target)).toNat = m.sp.toNat + 1 := by
  have one : (1 : UInt8).toNat = 1 := rfl
  change (m.sp + 1).toNat = _
  rw [UInt8.toNat_add]
  omega

theorem toNat_spAfter_ret (m : Machine) (above : m.sp ≠ 0) :
    (m.spAfter .ret).toNat = m.sp.toNat - 1 := by
  have one : (1 : UInt8).toNat = 1 := rfl
  -- Above the bottom of the stack the subtraction does not wrap.
  have positive : m.sp.toNat ≠ 0 := fun zero => above (UInt8.toNat_inj.mp zero)
  have := m.sp.toNat_lt
  change (m.sp - 1).toNat = _
  rw [UInt8.toNat_sub]
  omega

def awaitingAfter (m : Machine) : Instruction → Option UInt8
  | .awaitKey x => some (UInt8.ofNat x.val)
  | _ => m.awaiting

structure Changes (instruction : Instruction) (m after : Machine) : Prop where
  pc : after.pc = m.target instruction
  sp : after.sp = m.spAfter instruction
  stack : after.stack = m.stackAfter instruction
  awaiting : after.awaiting = m.awaitingAfter instruction
  /-- The screen is blanked, drawn on or left alone. -/
  screen : after.screen = Screen.blank ∨ after.screen = m.screen ∨
    ∃ x y sprite, after.screen = m.screen.draw x y sprite

end Machine

/-- Case by case, an instruction that is carried out leaves behind what `Changes` says. -/
theorem Instruction.apply_changes {instruction : Instruction} {random : UInt8} {m after : Machine}
    (applied : instruction.apply random m = .ok after) : m.Changes instruction after := by
  cases instruction with
  | clear =>
    cases applied
    exact ⟨rfl, rfl, rfl, rfl, .inl rfl⟩
  | ret =>
    obtain ⟨-, held, rfl⟩ := (m.leave_eq_ok_iff after).mp applied
    exact ⟨by simp [Machine.target, Machine.caller, held], rfl, rfl, rfl, .inr (.inl rfl)⟩
  | call target =>
    obtain ⟨room, rfl⟩ := (m.enter_eq_ok_iff after target).mp applied
    -- The slot exists, so the total write of `stackAfter` is the partial one of `enter`.
    have filled : m.stack.set m.sp.toNat m.pc = m.stack.setIfInBounds m.sp.toNat m.pc := by
      simp [← Vector.toArray_inj, Array.setIfInBounds_def, room]
    exact ⟨rfl, rfl, filled, rfl, .inr (.inl rfl)⟩
  | skip condition =>
    simp only [apply, Machine.skipIf_eq, Except.ok.injEq] at applied
    subst applied
    exact ⟨rfl, rfl, rfl, rfl, .inr (.inl rfl)⟩
  | arithmetic operation x y =>
    obtain ⟨registers, same⟩ := m.calculate_eq operation x y
    simp only [apply, same, Except.ok.injEq] at applied
    subst applied
    exact ⟨rfl, rfl, rfl, rfl, .inr (.inl rfl)⟩
  -- The four instructions on a span do all their work once they have it.
  | draw x y rows =>
    obtain ⟨span, -, done⟩ := (bind_eq_ok_iff _ _ _).mp applied
    cases done
    exact ⟨rfl, rfl, rfl, rfl, .inr (.inr ⟨_, _, _, rfl⟩)⟩
  | decimal x =>
    obtain ⟨span, -, done⟩ := (bind_eq_ok_iff _ _ _).mp applied
    cases done
    exact ⟨rfl, rfl, rfl, rfl, .inr (.inl rfl)⟩
  | save x =>
    obtain ⟨span, -, done⟩ := (bind_eq_ok_iff _ _ _).mp applied
    cases done
    exact ⟨rfl, rfl, rfl, rfl, .inr (.inl rfl)⟩
  | restore x =>
    obtain ⟨span, -, done⟩ := (bind_eq_ok_iff _ _ _).mp applied
    cases done
    exact ⟨rfl, rfl, rfl, rfl, .inr (.inl rfl)⟩
  -- The others neither fail nor touch stack and screen.
  | _ =>
    cases applied
    exact ⟨rfl, rfl, rfl, rfl, .inr (.inl rfl)⟩

end Chip8
