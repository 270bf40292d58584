import Chip8.Proofs.Effect
import Chip8.Proofs.Procedure

/-!
# The pieces of a procedure

What each checked piece comes to when its check passes, and the small instructions made of them. A
check passes because of a bound at hand: registers are nibbles, bytes are small, and a span of
memory was looked at before it is used.
-/

namespace Chip8

/-- The outcome of a procedure that ends early with the store as it was, or goes through. -/
def Store.settle (s : Store) : Except Fault Store → EStateM.Result Stop Store Unit
  | .ok after => .ok () after
  | .error cause => .error (.fault cause) s

def Store.put (s : Store) (executed : Instruction) (after : Machine) : Store :=
  { s with machine := after, dice := s.dice.after (some executed) }

namespace Cells

variable {α : Type} {size : Nat}

theorem slice?_eq (cells : Vector α size) (start count : Nat) (fits : start + count ≤ size) :
    slice? cells start (start + count) = some (slice cells start (start + count)) := by
  rw [slice?, if_pos ⟨Nat.le_add_right start count, fits⟩]

theorem copy?_eq (cells : Vector α size) (values : List α) {start count : Nat}
    (fits : start + count ≤ size) (same : values.length = count) :
    copy? cells start (start + count) values = some (overwrite cells start values) := by
  rw [copy?, Nat.add_sub_cancel_left, if_pos ⟨Nat.le_add_right start count, fits, same⟩]

end Cells

namespace Procedure

/-! ### Checked pieces -/

@[simp] theorem run_refuse {α : Type} (cause : Fault) (s : Store) :
    (refuse cause : Procedure α).run s = .error (.fault cause) s :=
  rfl

@[simp] theorem run_need_some {α : Type} (value : α) (s : Store) :
    (need (some value)).run s = .ok value s :=
  rfl

@[simp] theorem run_machine (s : Store) : machine.run s = .ok s.machine s :=
  rfl

@[simp] theorem run_change (edit : Machine → Machine) (s : Store) :
    (change edit).run s = .ok () { s with machine := edit s.machine } :=
  rfl

@[simp] theorem run_roll (s : Store) :
    roll.run s = .ok s.dice.top { s with dice := s.dice.roll } :=
  rfl

@[simp] theorem run_map {α β : Type} (f : α → β) (work : Procedure α) (s : Store) :
    (f <$> work).run s = match work.run s with
      | .ok value after => .ok (f value) after
      | .error stop after => .error stop after := by
  rw [← bind_pure_comp, EStateM.run_bind]
  cases work.run s <;> rfl

theorem run_fit {size value : Nat} (small : value < size) (s : Store) :
    (fit size value).run s = .ok value s := by
  simp [fit, small]

/-- No sum of an instruction comes near the limit of a 64-bit word. -/
theorem lt_size {value : Nat} (small : value < 131072) : value < UInt64.size :=
  Nat.lt_trans small (by decide)

theorem run_minus {a b : Nat} (low : b ≤ a) (s : Store) : (minus a b).run s = .ok (a - b) s := by
  simp [minus, low]

theorem run_shift (operation : UInt8 → UInt8 → UInt8) (byte : UInt8) {places : Nat}
    (narrow : places < 8) (s : Store) :
    (shift operation byte places).run s = .ok (operation byte (UInt8.ofNat places)) s := by
  simp [shift, narrow]

@[simp] theorem run_register (x : Nibble) (s : Store) :
    (register x.val).run s = .ok (s.machine.register x) s := by
  simp [register, Machine.register, Cells.get_eq_getElem]

@[simp] theorem run_setRegister (x : Nibble) (value : UInt8) (s : Store) :
    (setRegister x.val value).run s =
      .ok () { s with machine := s.machine.setRegister x value } := by
  simp [setRegister, Machine.setRegister, Cells.set?]

@[simp] theorem run_setFlag (flag : Bool) (s : Store) :
    (setRegister 0xF (if flag then 1 else 0)).run s =
      .ok () { s with machine := s.machine.setFlag flag } :=
  run_setRegister Nibble.last _ s

@[simp] theorem run_advance (skip : Bool) (s : Store) :
    (advance skip).run s = .ok () { s with machine := s.machine.skipIf skip } := by
  simp [advance, Machine.skipIf_eq]

theorem exists_eq_of_within {start : UInt16} {length : Nat} {place : Span} (short : length ≤ 16)
    (found : Span.within start (UInt64.ofNat length) = .ok place) :
    ∃ first, place = ⟨first, first + length⟩ ∧ first + length ≤ 4096 := by
  rw [Span.within_ofNat start length short, Memory.size] at found
  split at found
  next empty =>
    cases found
    -- An empty span may have been asked for beyond memory.
    exact ⟨min start.toNat 4096, by simp [empty], by omega⟩
  next filled =>
    split at found
    next inside =>
      cases found
      exact ⟨start.toNat, rfl, inside⟩
    next beyond => cases found

/-- As long as the sum fits into a word, it makes no difference whether it is checked. -/
theorem run_span_of_fits (start : UInt16) (length : UInt64)
    (fits : start.toNat + length.toNat < UInt64.size) (s : Store) :
    (span start length.toNat).run s =
      match Span.within start length with
      | .ok place => .ok place s
      | .error cause => .error (.fault cause) s := by
  have empty_iff : length.toNat = 0 ↔ length = 0 := by
    rw [← UInt64.toNat_inj, UInt64.toNat_zero]
  rw [Span.within_of_fits start length fits]
  unfold span
  simp only [empty_iff]
  split
  next empty => simp
  next filled =>
    rw [EStateM.run_bind, run_fit fits]
    dsimp only
    split
    next beyond =>
      have last : 1 ≤ start.toNat + length.toNat := by omega
      have outside : ¬ start.toNat + length.toNat ≤ Memory.size := by omega
      rw [EStateM.run_bind, run_minus last]
      simp [outside]
    next inside =>
      have within : start.toNat + length.toNat ≤ Memory.size := by omega
      simp [within]

theorem run_span (start : UInt16) (length : Nat) (short : length ≤ 16) (s : Store) :
    (span start length).run s =
      match Span.within start (UInt64.ofNat length) with
      | .ok place => .ok place s
      | .error cause => .error (.fault cause) s := by
  have bound := start.toNat_lt
  have size : UInt64.size = 18446744073709551616 := rfl
  have width : (UInt64.ofNat length).toNat = length := by
    rw [UInt64.toNat_ofNat']
    omega
  have ran := run_span_of_fits start (UInt64.ofNat length) (by omega) s
  rwa [width] at ran

/-! ### Instructions -/

theorem toNat_and_low (byte : UInt8) : (byte &&& 0xF).toNat = (Nibble.ofByte byte).val := by
  rw [UInt8.toNat_and]
  exact Nat.and_two_pow_sub_one_eq_mod _ 4

theorem run_keyDown (x : Nibble) (s : Store) :
    (keyDown x).run s =
      .ok (s.machine.pressed.get (Nibble.ofByte (s.machine.register x))) s := by
  simp only [keyDown, EStateM.run_bind, run_register, toNat_and_low, run_machine]
  simp [Cells.get_eq_getElem]

theorem run_holds (condition : Condition) (s : Store) :
    (holds condition).run s = .ok (condition.holds s.machine) s := by
  cases condition <;> simp [holds, Condition.holds, run_keyDown]

theorem run_result (a b : UInt8) (operation : Arithmetic) (s : Store) :
    (result a b operation).run s = .ok (operation.result a b) s := by
  cases operation <;> simp [result, Arithmetic.result, run_shift]

theorem run_calculate (operation : Arithmetic) (x y : Nibble) (s : Store) :
    (calculate operation x y).run s =
      .ok () { s with machine := s.machine.calculate operation x y } := by
  simp only [calculate, Machine.calculate, EStateM.run_bind, run_register, run_result,
    run_setRegister]
  cases operation.flag? (s.machine.register x) (s.machine.register y) with
  | none => simp [Machine.skipIf]
  | some flag => simp [Machine.skipIf]

theorem run_ret (s : Store) :
    ret.run s = s.settle (s.machine.leave.map fun after => { s with machine := after }) := by
  simp only [ret, Machine.leave, EStateM.run_bind, run_machine]
  by_cases bottom : s.machine.sp = 0
  · simp [bottom, Except.map, Store.settle]
  have above : 0 < s.machine.sp.toNat :=
    Nat.pos_of_ne_zero fun zero => bottom (UInt8.toNat_inj.mp zero)
  simp only [bottom, if_false]
  split
  next beyond =>
    have outside : ¬ s.machine.sp.toNat - 1 < 16 := by omega
    simp [outside, Except.map, Store.settle]
  next held =>
    have inside : s.machine.sp.toNat - 1 < 16 := by omega
    have word : UInt8.ofNat (s.machine.sp.toNat - 1) = s.machine.sp - 1 := by
      rw [UInt8.ofNat_sub above]
      simp
    -- The slot is read at the lowered pointer.
    have lowered : (s.machine.sp - 1).toNat = s.machine.sp.toNat - 1 :=
      s.machine.toNat_spAfter_ret bottom
    simp only [EStateM.run_bind, run_minus above, word, lowered, run_change]
    simp [inside, Except.map, Store.settle]

theorem run_call (target : Address) (s : Store) :
    (call target).run s =
      s.settle ((s.machine.enter target).map fun after => { s with machine := after }) := by
  simp only [call, Machine.enter, EStateM.run_bind, run_machine]
  by_cases room : s.machine.sp.toNat < 16
  · have low : ¬ 16 ≤ s.machine.sp.toNat := by omega
    have raised : UInt8.ofNat (s.machine.sp.toNat + 1) = s.machine.sp + 1 := by simp
    -- Below sixteen the pointer can be raised.
    have small : s.machine.sp.toNat + 1 < UInt8.size := by
      simp only [UInt8.size]
      omega
    simp [low, room, Cells.set?, run_fit small, Except.map, Store.settle]
  · have full : 16 ≤ s.machine.sp.toNat := by omega
    simp [full, room, Except.map, Store.settle]

end Procedure

end Chip8
