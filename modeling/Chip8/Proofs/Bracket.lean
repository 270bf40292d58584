import Chip8.Proofs.Run
import Chip8.Proofs.Step

/-!
# Calls and returns

A call stores the place it stands at in the slot that the stack pointer names, and a return goes
back to what a slot holds. In between the program may call, return, jump and rewrite itself, fail,
and be taken back: as long as the stack pointer stays above that slot, the slot is not written.

Taking back restores whole machines, so the invariant speaks of the history too. Past states newer
than the call agree with the machine on the slots up to that of the call. The state right below
them, if it is not forgotten, is the one that the call was executed in; it is not deep enough to
be taken back to.

## Main result

`call_return`: the return that leaves the depth of a call goes on right behind that call, with the
slots below it as they were.
-/

namespace Chip8

/-- A machine deeper than `depth`, with the given slots up to there. -/
structure Machine.Within (depth : UInt8) (slots : Vector UInt16 16) (m : Machine) : Prop where
  deeper : depth < m.sp
  kept : ∀ slot ≤ depth.toNat, m.stack[slot]? = slots[slot]?

theorem Machine.Within.stackAfter {depth : UInt8} {slots : Vector UInt16 16} {m : Machine}
    (within : m.Within depth slots) (instruction : Instruction) :
    ∀ slot ≤ depth.toNat, (m.stackAfter instruction)[slot]? = slots[slot]? := by
  intro slot low
  have deeper := UInt8.lt_iff_toNat_lt.mp within.deeper
  cases instruction with
  | call target =>
    -- The slot that is written lies beyond those that are kept.
    have apart : m.sp.toNat ≠ slot := by omega
    rw [Machine.stackAfter, Vector.getElem?_setIfInBounds_ne apart]
    exact within.kept slot low
  | _ => exact within.kept slot low

namespace Console

/-- A console inside a call: its machine is, and so are the past states since the call. -/
structure Inside (depth : UInt8) (slots : Vector UInt16 16) (c : Console) : Prop where
  machine : c.machine.Within depth slots
  history : ∃ since before, c.history = since ++ before ∧
    (∀ m ∈ since, m.Within depth slots) ∧ ∀ m ∈ before.head?, ¬ depth < m.sp

theorem Inside.perform {depth : UInt8} {slots : Vector UInt16 16} {c : Console}
    (inside : c.Inside depth slots) (random : UInt8) (input : Input)
    (plain : input.isEdit = false) (deep : depth < (c.perform random input).console.machine.sp) :
    (c.perform random input).console.Inside depth slots := by
  have performed := c.perform_performed random input
  generalize (c.perform random input).answer.executed? = executed at performed
  generalize (c.perform random input).console = after at performed deep ⊢
  obtain ⟨since, before, history, newer, older⟩ := inside.history
  cases performed with
  | executed stepped =>
    obtain ⟨-, op, -, -, applied, works, rfl⟩ := (Machine.step_eq_some_iff _ _ _ _).mp stepped
    have changes := Instruction.apply_changes works
    -- Forgetting takes from the states before the call first, then from those since.
    refine ⟨⟨deep, ?_⟩, (c.machine :: since).take 600,
      before.take (600 - (since.length + 1)), ?_, ?_, ?_⟩
    · simpa [advance, changes.stack] using inside.machine.stackAfter _
    · simp only [advance, historyLimit, history, ← List.cons_append, List.take_append,
        List.length_cons]
    · intro m member
      rcases List.mem_cons.mp (List.mem_of_mem_take member) with rfl | past
      · exact inside.machine
      · exact newer m past
    · intro m first
      rw [List.head?_take] at first
      split at first
      · cases first
      · exact older m first
  | @takenBack latest rest found =>
    cases since with
    | nil =>
      -- The state below the call is not deep enough.
      rw [List.nil_append, found] at history
      exact absurd deep (older latest (by simp [← history]))
    | cons first others =>
      rw [found, List.cons_append] at history
      injection history with same rest
      subst same
      have latest := newer _ List.mem_cons_self
      exact ⟨⟨deep, latest.kept⟩, others, before, rest,
        fun m member => newer m (List.mem_cons_of_mem _ member), older⟩
  | atBeginning empty => exact inside
  | edited change => cases plain
  | undisturbed forward same =>
    refine ⟨⟨deep, ?_⟩, inside.history⟩
    rw [same.stack]
    exact inside.machine.kept

theorem call_room {c : Console} {random : UInt8} {target : Address}
    (called : (c.step random).answer = .ok (some (.call target))) :
    c.machine.sp.toNat < 16 ∧ c.machine.pc.toNat ≤ 0xFFE := by
  obtain ⟨after, stepped, -⟩ := step_executed called
  obtain ⟨-, op, fetched, -, applied, works, -⟩ := (Machine.step_eq_some_iff _ _ _ _).mp stepped
  obtain ⟨room, -⟩ := (c.machine.enter_eq_ok_iff applied target).mp works
  exact ⟨room, Machine.pc_le_of_fetch fetched⟩

/-- A call takes the console inside itself. The state it was executed in lies right below. -/
theorem call_inside {c : Console} {random : UInt8} {target : Address}
    (called : (c.step random).answer = .ok (some (.call target))) :
    (c.step random).console.Inside c.machine.sp (c.machine.stackAfter (.call target)) := by
  obtain ⟨room, -⟩ := call_room called
  obtain ⟨after, stepped, console⟩ := step_executed called
  obtain ⟨-, op, -, -, applied, works, rfl⟩ := (Machine.step_eq_some_iff _ _ _ _).mp stepped
  have changes := Instruction.apply_changes works
  rw [console]
  refine ⟨⟨?_, fun slot _ => ?_⟩, [], _, rfl, by simp, ?_⟩
  · rw [UInt8.lt_iff_toNat_lt, advance, Machine.resume_sp, changes.sp,
      Machine.toNat_spAfter_call _ _ room]
    exact Nat.lt_succ_self _
  · rw [advance, Machine.resume_stack, changes.stack]
  · intro m first
    cases first
    exact UInt8.lt_irrefl _

theorem Inside.caller {depth : UInt8} {slots : Vector UInt16 16} {c : Console}
    (inside : c.Inside depth slots) (level : c.machine.spAfter .ret = depth) :
    c.machine.caller = slots[depth.toNat]?.getD 0 := by
  have above : c.machine.sp ≠ 0 := by
    intro bottom
    have deeper := inside.machine.deeper
    rw [bottom] at deeper
    exact UInt8.not_lt_zero deeper
  have top : c.machine.sp.toNat - 1 = depth.toNat := by
    rw [← level, c.machine.toNat_spAfter_ret above]
  rw [Machine.caller, top, inside.machine.kept _ (Nat.le_refl _)]

/-- The return that brings the stack pointer back to where it was before a call goes on behind the
call, and the slots below are as they were before it. -/
theorem call_return (c : Console) (random : UInt8) (target : Address)
    (called : (c.step random).answer = .ok (some (.call target))) (dice : Dice)
    (inputs : List Input) (plain : ∀ input ∈ inputs, input.isEdit = false)
    (deep : ∀ count ≤ inputs.length, c.machine.sp <
      ((c.step random).console.run dice (inputs.take count)).console.machine.sp)
    (later : UInt8)
    (returned : (((c.step random).console.run dice inputs).console.step later).answer =
      .ok (some .ret))
    (level : (((c.step random).console.run dice inputs).console.step later).console.machine.sp =
      c.machine.sp) :
    let final := (((c.step random).console.run dice inputs).console.step later).console.machine
    final.pc.toNat = c.machine.pc.toNat + 2 ∧
      ∀ slot < c.machine.sp.toNat, final.stack[slot]? = c.machine.stack[slot]? := by
  have inside := run_keeps_within (Inside c.machine.sp (c.machine.stackAfter (.call target)))
    (fun last => c.machine.sp < last.machine.sp) (fun input => input.isEdit = false)
    (fun last byte input allowed kept deeper => kept.perform byte input allowed deeper)
    _ dice inputs plain deep (call_inside called)
  -- From here on only the last console matters, and that it is inside the call.
  generalize ((c.step random).console.run dice inputs).console = last at inside returned level ⊢
  obtain ⟨room, low⟩ := call_room called
  obtain ⟨after, stepped, console⟩ := step_executed returned
  obtain ⟨-, -, -, -, applied, works, rfl⟩ := (Machine.step_eq_some_iff _ _ _ _).mp stepped
  have changes := Instruction.apply_changes works
  rw [console] at level ⊢
  rw [advance, Machine.resume_sp, changes.sp] at level
  simp only [advance, Machine.resume_stack, changes.stack]
  constructor
  · have caller : last.machine.caller = c.machine.pc := by
      rw [inside.caller level]
      simp [Machine.stackAfter, room]
    have two : (2 : UInt16).toNat = 2 := rfl
    simp only [Machine.resume, Machine.next, changes.pc, Machine.target, caller, UInt16.toNat_add]
    omega
  · intro slot below
    have apart : c.machine.sp.toNat ≠ slot := by omega
    calc last.machine.stack[slot]?
        = (c.machine.stackAfter (.call target))[slot]? :=
          inside.machine.kept slot (Nat.le_of_lt below)
      _ = c.machine.stack[slot]? := Vector.getElem?_setIfInBounds_ne apart

/-- A console in a subroutine that calls another one, which in turn calls a third. -/
def nested : Console :=
  (initial.run (.ofList []) [.load [.bytes [0x22, 0x04, 0x00, 0xE0, 0x22, 0x08, 0x00, 0xEE, 0x22,
    0x0C, 0x00, 0xEE, 0x00, 0xEE]], .step]).console

/-- The innermost call is made, taken back and made again. -/
theorem call_return_nested :
    let inputs : List Input := [.step, .rewind, .step, .step]
    let last := ((nested.step 0).console.run (.ofList []) inputs).console
    ((nested.step 0).answer = .ok (some (.call 0x208)) ∧
      (∀ input ∈ inputs, input.isEdit = false) ∧
      (∀ count ≤ inputs.length, nested.machine.sp <
        ((nested.step 0).console.run (.ofList []) (inputs.take count)).console.machine.sp) ∧
      (last.step 0).answer = .ok (some .ret) ∧
      (last.step 0).console.machine.sp = nested.machine.sp) ∧
    (last.step 0).console.machine.pc.toNat = nested.machine.pc.toNat + 2 ∧
      ∀ slot < nested.machine.sp.toNat,
        (last.step 0).console.machine.stack[slot]? = nested.machine.stack[slot]? := by
  intro inputs
  dsimp only
  have plain : ∀ input ∈ inputs, input.isEdit = false := by decide
  have facts : (nested.step 0).answer = .ok (some (.call 0x208)) ∧
      (∀ count ≤ inputs.length, nested.machine.sp <
        ((nested.step 0).console.run (.ofList []) (inputs.take count)).console.machine.sp) ∧
      (((nested.step 0).console.run (.ofList []) inputs).console.step 0).answer =
        .ok (some .ret) ∧
      (((nested.step 0).console.run (.ofList []) inputs).console.step 0).console.machine.sp =
        nested.machine.sp := by
    decide +kernel
  obtain ⟨called, deep, returned, level⟩ := facts
  exact ⟨⟨called, plain, deep, returned, level⟩,
    call_return nested 0 0x208 called (.ofList []) inputs plain deep 0 returned level⟩

end Console

end Chip8
