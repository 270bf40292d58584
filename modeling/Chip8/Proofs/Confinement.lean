import Chip8.Proofs.Outcome

/-!
# What an opcode may touch

`Confined` lists the parts of a machine and says of each which opcodes may change it, down to the
single register, slot and byte. `GoesOn` says where a machine goes on. Both speak of the nibbles of
the opcode and of what the machine held before, and of no instruction.

## Main result

`execute_confined`: an opcode that is executed changes nothing that it may not touch, and leaves the
machine at the place where it goes on.
-/

namespace Chip8

namespace Opcode

/-- The registers that an opcode may write. -/
def Writes (op : Opcode) (z : Nibble) : Prop :=
  match op.family.val with
  | 0x6 | 0x7 | 0xC => z = op.x
  | 0x8 => z = op.x ∨ op.n.val ∈ [0x4, 0x5, 0x6, 0x7, 0xE] ∧ z = Nibble.last
  | 0xD => z = Nibble.last
  | 0xF => op.kk = 0x07 ∧ z = op.x ∨ op.kk = 0x65 ∧ z ≤ op.x
  | _ => False

/-- The bytes that an opcode may store, counted from the index. -/
def Stores (op : Opcode) (place : Nat) : Prop :=
  op.family.val = 0xF ∧ (op.kk = 0x33 ∧ place < 3 ∨ op.kk = 0x55 ∧ place ≤ op.x.val)

/-- The opcodes that work on the screen. -/
def Shows (op : Opcode) : Prop :=
  op = 0x00E0 ∨ op.family.val = 0xD

/-- The opcodes that do not go on behind themselves. -/
def Jumps (op : Opcode) : Prop :=
  op = 0x00EE ∨ op.family.val = 0x1 ∨ op.family.val = 0x2 ∨ op.family.val = 0xB

end Opcode

namespace Machine

/-- Whether an opcode has a condition that holds. -/
def skips (m : Machine) (op : Opcode) : Bool :=
  let key := (m.register op.x).toNat % 16
  match op.family.val with
  | 0x3 => m.register op.x = op.kk
  | 0x4 => m.register op.x ≠ op.kk
  | 0x5 => m.register op.x = m.register op.y
  | 0x9 => m.register op.x ≠ m.register op.y
  | 0xE => op.kk = 0x9E ∧ m.pressed[key]? = some true ∨ op.kk = 0xA1 ∧ m.pressed[key]? = some false
  | _ => false

/-- What is left of a machine after an opcode: every part that has changed is one that the opcode
may change. -/
structure Confined (m : Machine) (op : Opcode) (after : Machine) : Prop where
  pressed : after.pressed = m.pressed
  register : ∀ z, after.register z ≠ m.register z → op.Writes z
  index : after.index ≠ m.index →
    op.family.val = 0xA ∨ op.family.val = 0xF ∧ (op.kk = 0x1E ∨ op.kk = 0x29)
  stack : ∀ slot : Fin 16, after.stack.get slot ≠ m.stack.get slot →
    op.family.val = 0x2 ∧ slot.val = m.sp.toNat
  /-- A call raises the pointer and a return lowers it; neither wraps around. -/
  sp : (after.sp.toNat : Int) =
    m.sp.toNat + if op.family.val = 0x2 then 1 else if op = 0x00EE then -1 else 0
  memory : ∀ address : Fin 4096, after.memory.get address ≠ m.memory.get address →
    ∃ place, address.val = m.index.toNat + place ∧ op.Stores place
  screen : after.screen ≠ m.screen → op.Shows
  redraw : after.redraw ≠ m.redraw → op.Shows
  shown : op.Shows → after.redraw = true
  delay : after.delay ≠ m.delay → op.family.val = 0xF ∧ op.kk = 0x15
  sound : after.sound ≠ m.sound → op.family.val = 0xF ∧ op.kk = 0x18
  awaiting : after.awaiting ≠ m.awaiting → op.family.val = 0xF ∧ op.kk = 0x0A

/-- Where a machine goes on after an opcode. -/
structure GoesOn (m : Machine) (op : Opcode) (after : Machine) : Prop where
  jump : op.family.val = 0x1 ∨ op.family.val = 0x2 → after.pc.toNat = op.address.val
  /-- The sum is not cut down to the width of an address. -/
  offset : op.family.val = 0xB →
    after.pc.toNat = (m.register Nibble.first).toNat + op.address.val ∧ after.pc.toNat ≤ 0x10FE
  /-- The slot is the one that the lowered pointer frees. -/
  ret : op = 0x00EE → m.stack[after.sp.toNat]? = some after.pc
  onward : ¬ op.Jumps → after.pc = m.pc + if m.skips op then 4 else 2

theorem eq_of_setRegister_ne {m : Machine} {x z : Nibble} {value : UInt8}
    (changed : (m.setRegister x value).register z ≠ m.register z) : z = x := by
  rw [register_setRegister, ne_eq, ite_eq_right_iff, Classical.not_imp] at changed
  exact changed.1

theorem getElem?_pressed (m : Machine) (byte : UInt8) :
    m.pressed[byte.toNat % 16]? = some (m.pressed.get (Nibble.ofByte byte)) :=
  Vector.getElem?_eq_getElem (Nibble.ofByte byte).isLt

end Machine

theorem Arithmetic.flag?_of_ofNibble? {n : Nibble} {operation : Arithmetic}
    (known : ofNibble? n = some operation) (a b : UInt8) :
    n.val ∈ [0x4, 0x5, 0x6, 0x7, 0xE] ∨ operation.flag? a b = none := by
  unfold ofNibble? at known
  split at known <;> cases known <;> simp [flag?, *]

/-- An opcode stands for one instruction. -/
theorem Opcode.Means.unique {op : Opcode} {one other : Instruction} (means : op.Means one)
    (again : op.Means other) : one = other := by
  rw [← decode_eq_ok_iff_means] at means again
  rw [means] at again
  cases again
  rfl

namespace Machine

variable {m : Machine} {op : Opcode} {instruction : Instruction}

/-! ### Which part an instruction changes -/

section Changed

variable (means : op.Means instruction) (random : UInt8)

include means

theorem writes_of_changed {z : Nibble}
    (changed : (m.outcome random instruction).register z ≠ m.register z) : op.Writes z := by
  cases instruction with
  | setByte x kk | addByte x kk | random x kk =>
    obtain ⟨family, rfl, -⟩ := means
    simp only [Opcode.Writes, family]
    exact eq_of_setRegister_ne changed
  | arithmetic operation x y =>
    obtain ⟨family, low, rfl, rfl⟩ := means
    simp only [Opcode.Writes, family]
    have changed : (m.calculate operation op.x op.y).register z ≠ m.register z := changed
    rw [register_calculate] at changed
    by_contra other
    obtain ⟨apart, unflagged⟩ := not_or.mp other
    -- Without a flag the register alone is written, and with one the last register as well.
    rcases Arithmetic.flag?_of_ofNibble? low (m.register op.x) (m.register op.y) with flags | none
    · have below : z ≠ Nibble.last := fun last => unflagged ⟨flags, last⟩
      simp only [below, apart, if_false] at changed
      split at changed <;> exact changed rfl
    · simp only [none, apart, if_false] at changed
      exact changed rfl
  | draw x y rows =>
    simp only [Opcode.Writes, means.1]
    exact eq_of_setRegister_ne changed
  | readDelay x =>
    obtain ⟨family, low, rfl⟩ := means
    simp only [Opcode.Writes, family]
    exact .inl ⟨low, eq_of_setRegister_ne changed⟩
  | restore x =>
    obtain ⟨family, low, rfl⟩ := means
    simp only [Opcode.Writes, family]
    have inside : 0 ≤ z.val ∧ z.val < 0 + (m.bytesAt (op.x.val + 1)).length :=
      Cells.inside_of_overwrite_ne changed
    have short := m.length_bytesAt_le (op.x.val + 1)
    exact .inr ⟨low, Fin.le_def.mpr (by omega)⟩
  | _ => exact absurd rfl changed

theorem stores_of_changed {address : Fin 4096}
    (changed : (m.outcome random instruction).memory.get address ≠ m.memory.get address) :
    ∃ place, address.val = m.index.toNat + place ∧ op.Stores place := by
  cases instruction with
  | decimal x =>
    obtain ⟨family, low, -⟩ := means
    have inside : m.index.toNat ≤ address.val ∧ address.val < m.index.toNat + 3 :=
      Cells.inside_of_overwrite_ne changed
    exact ⟨address.val - m.index.toNat, by omega, family, .inl ⟨low, by omega⟩⟩
  | save x =>
    obtain ⟨family, low, rfl⟩ := means
    have inside := Cells.inside_of_overwrite_ne changed
    have count : (Cells.slice m.registers 0 (op.x.val + 1)).length ≤ op.x.val + 1 := by
      simp only [Cells.slice, Vector.length_toList]
      omega
    exact ⟨address.val - m.index.toNat, by omega, family, .inr ⟨low, by omega⟩⟩
  | _ => exact absurd rfl changed

theorem pushes_of_changed {slot : Fin 16}
    (changed : (m.outcome random instruction).stack.get slot ≠ m.stack.get slot) :
    op.family.val = 0x2 ∧ slot.val = m.sp.toNat := by
  cases instruction with
  | call target =>
    refine ⟨means.1, ?_⟩
    by_contra other
    exact changed (Vector.getElem_setIfInBounds_ne slot.isLt fun same => other same.symm)
  | _ => exact absurd rfl changed

theorem shows_of_changed (changed : (m.outcome random instruction).screen ≠ m.screen ∨
    (m.outcome random instruction).redraw ≠ m.redraw) : op.Shows := by
  cases instruction with
  | clear => exact .inl means
  | draw x y rows => exact .inr means.1
  | _ => exact (changed.elim (absurd rfl) (absurd rfl))

theorem redraw_of_shows (shows : op.Shows) : (m.outcome random instruction).redraw = true := by
  rcases shows with clear | draw
  · have same : instruction = .clear := means.unique clear
    rw [same]
    rfl
  · have same : instruction = .draw op.x op.y op.n := means.unique ⟨draw, rfl, rfl, rfl⟩
    rw [same]
    rfl

/-- The checks of a call and of a return keep the pointer from wrapping around. -/
theorem toNat_spAfter (free : m.fault? instruction = none) :
    ((m.spAfter instruction).toNat : Int) =
      m.sp.toNat + if op.family.val = 0x2 then 1 else if op = 0x00EE then -1 else 0 := by
  by_cases call : op.family.val = 0x2
  · have same : instruction = .call op.address := means.unique ⟨call, rfl⟩
    subst same
    have room := (m.fault?_call_eq_none_iff op.address).mp free
    rw [if_pos call, m.toNat_spAfter_call op.address room]
    rfl
  rw [if_neg call]
  by_cases ret : op = 0x00EE
  · have same : instruction = .ret := means.unique ret
    subst same
    obtain ⟨above, -⟩ := m.fault?_ret_eq_none_iff.mp free
    have positive : m.sp.toNat ≠ 0 := fun zero => above (UInt8.toNat_inj.mp zero)
    rw [if_pos ret, m.toNat_spAfter_ret above]
    omega
  · rw [if_neg ret, Int.add_zero]
    cases instruction with
    | call target => exact absurd means.1 call
    | ret => exact absurd means ret
    | _ => rfl

/-! ### Where an instruction leads -/

theorem skips_eq_holds {condition : Condition} (skip : instruction = .skip condition) :
    m.skips op = condition.holds m := by
  subst skip
  cases condition with
  | equalsByte x kk | differsByte x kk =>
    obtain ⟨family, rfl, rfl⟩ := means
    simp only [skips, family, Condition.holds]
  | equals x y | differs x y =>
    obtain ⟨family, -, rfl, rfl⟩ := means
    simp only [skips, family, Condition.holds]
  | keyDown x | keyUp x =>
    obtain ⟨family, low, rfl⟩ := means
    simp [skips, family, low, getElem?_pressed, Condition.holds]

theorem target_eq_of_not_jumps (onward : ¬ op.Jumps) :
    m.target instruction = m.pc + if m.skips op then 4 else 2 := by
  cases instruction with
  | ret => exact absurd (.inl means) onward
  | jump target => exact absurd (.inr (.inl means.1)) onward
  | call target => exact absurd (.inr (.inr (.inl means.1))) onward
  | jumpOffset target => exact absurd (.inr (.inr (.inr means.1))) onward
  | skip condition =>
    rw [skips_eq_holds means rfl]
    rfl
  -- No other instruction has a condition.
  | clear =>
    subst means
    rfl
  | _ =>
    simp only [skips, means.1]
    rfl

theorem caller_of_ret (ret : op = 0x00EE) (free : m.fault? instruction = none) :
    m.stack[(m.spAfter instruction).toNat]? = some (m.target instruction) := by
  have same : instruction = .ret := means.unique ret
  subst same
  obtain ⟨above, held⟩ := m.fault?_ret_eq_none_iff.mp free
  have inside : m.sp.toNat - 1 < 16 := by omega
  rw [m.toNat_spAfter_ret above, Vector.getElem?_eq_getElem inside, ← m.caller_eq inside]
  rfl

end Changed

/-- Where nothing stops an instruction, its outcome is confined to what its opcode may change. -/
theorem outcome_confined (means : op.Means instruction) (random : UInt8)
    (free : m.fault? instruction = none) : m.Confined op (m.outcome random instruction) where
  pressed := rfl
  register _ := writes_of_changed means random
  index changed := by
    cases instruction with
    | setIndex target => exact .inl means.1
    | addIndex x => exact .inr ⟨means.1, .inl means.2.1⟩
    | glyph x => exact .inr ⟨means.1, .inr means.2.1⟩
    | _ => exact absurd rfl changed
  stack _ := pushes_of_changed means random
  sp := toNat_spAfter means free
  memory _ := stores_of_changed means random
  screen changed := shows_of_changed means random (.inl changed)
  redraw changed := shows_of_changed means random (.inr changed)
  shown := redraw_of_shows means random
  delay changed := by
    cases instruction with
    | setDelay x => exact ⟨means.1, means.2.1⟩
    | _ => exact absurd rfl changed
  sound changed := by
    cases instruction with
    | setSound x => exact ⟨means.1, means.2.1⟩
    | _ => exact absurd rfl changed
  awaiting changed := by
    cases instruction with
    | awaitKey x => exact ⟨means.1, means.2.1⟩
    | _ => exact absurd rfl changed

theorem outcome_goesOn (means : op.Means instruction) (random : UInt8)
    (free : m.fault? instruction = none) : m.GoesOn op (m.outcome random instruction) where
  jump jumps := by
    have word : (UInt16.ofNat op.address.val).toNat = op.address.val :=
      UInt16.toNat_ofNat_of_lt' (Nat.lt_trans op.address.isLt (by decide))
    rcases jumps with jump | call
    · have same : instruction = .jump op.address := means.unique ⟨jump, rfl⟩
      rw [same]
      exact word
    · have same : instruction = .call op.address := means.unique ⟨call, rfl⟩
      rw [same]
      exact word
  offset offsets := by
    have same : instruction = .jumpOffset op.address := means.unique ⟨offsets, rfl⟩
    have small := op.address.isLt
    have byte := (m.register Nibble.first).toNat_lt
    have fits : (m.register Nibble.first).toNat + op.address.val < UInt16.size := by
      simp only [UInt16.size]
      omega
    have sum : (m.target instruction).toNat = (m.register Nibble.first).toNat + op.address.val := by
      rw [same]
      exact UInt16.toNat_ofNat_of_lt' fits
    exact ⟨sum, sum.trans_le (by omega)⟩
  ret returns := caller_of_ret means returns free
  onward := target_eq_of_not_jumps means

/-- Each opcode touches only its own part of a machine. -/
theorem execute_confined {m after : Machine} {random : UInt8} {op : Opcode}
    {instruction : Instruction} (executed : m.execute random op = .ok (instruction, after)) :
    m.Confined op after ∧ m.GoesOn op after := by
  obtain ⟨decoded, free, rfl⟩ := (m.execute_eq_ok_iff _ _ _ _).mp executed
  have means := (op.decode_eq_ok_iff_means instruction).mp decoded
  exact ⟨outcome_confined means random free, outcome_goesOn means random free⟩

/-- The jump that leads furthest goes past the end of memory. -/
theorem execute_confined_offset :
    let m := { initial with registers := Vector.replicate 16 0xFF }
    ∃ after, m.execute 0 0xBFFF = .ok (.jumpOffset 4095, after) ∧ after.pc.toNat = 0x10FE ∧
      ∀ z, after.register z = m.register z := by
  intro m
  have executed : m.execute 0 0xBFFF = .ok (.jumpOffset 4095, { m with pc := 0x10FE }) := rfl
  obtain ⟨confined, goesOn⟩ := execute_confined executed
  refine ⟨_, executed, (goesOn.offset rfl).1, fun z => ?_⟩
  exact Decidable.byContradiction (confined.register z)

end Machine

end Chip8
