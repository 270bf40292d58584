import Chip8.Proofs.Run
import Chip8.Proofs.Veil

/-!
# What is told about a run

There is something to tell about an input if a rom is taken in, if an opcode is fetched, or if a key
has to be ignored or dropped. `Tells` lists these occasions by the state before the input, and
`Logs` strings them together along a run. The text of a fetched opcode has fields of fixed width and
ends with a decimal, so it can be taken apart again.

## Main result

`records_faithful`: a run tells exactly what `Logs` says, in order, and from the text of a fetched
opcode its record can be read off.
-/

namespace Chip8

/-! ### Texts that can be taken apart -/

namespace Text

theorem append_inj {front other rest tail : String} (same : front ++ rest = other ++ tail)
    (long : front.length = other.length) : front = other ∧ rest = tail := by
  have letters : front.toList ++ rest.toList = other.toList ++ tail.toList := by
    rw [← String.toList_append, same, String.toList_append]
  obtain ⟨fronts, rests⟩ :=
    List.append_inj letters (by simpa only [String.length_toList] using long)
  exact ⟨String.toList_inj.mp fronts, String.toList_inj.mp rests⟩

theorem toString_inj {n m : Nat} (same : toString n = toString m) : n = m := by
  rw [Nat.toString_eq_ofList_toDigits, Nat.toString_eq_ofList_toDigits, String.ofList_inj] at same
  have values := congrArg (Nat.ofDigitChars 10 · 0) same
  simpa only [Nat.ofDigitChars_ten_toDigits] using values

variable {width : Nat} {between : String}

theorem length_intercalate {texts : List String} (wide : ∀ text ∈ texts, text.length = width) :
    (between.intercalate texts).length =
      texts.length * width + (texts.length - 1) * between.length := by
  induction texts with
  | nil => simp
  | cons text rest ih =>
    obtain ⟨first, others⟩ := List.forall_mem_cons.mp wide
    cases rest with
    | nil => simp [first]
    | cons next rest =>
      rw [String.intercalate_cons_cons, String.length_append, String.length_append, ih others,
        first]
      simp only [List.length_cons, Nat.add_sub_cancel, Nat.add_one_mul]
      omega

theorem intercalate_inj {texts others : List String} (wide : ∀ text ∈ texts, text.length = width)
    (wideOther : ∀ text ∈ others, text.length = width) (long : texts.length = others.length)
    (same : between.intercalate texts = between.intercalate others) : texts = others := by
  induction texts generalizing others with
  | nil => exact (List.eq_nil_of_length_eq_zero long.symm).symm
  | cons text rest ih =>
    obtain _ | ⟨other, later⟩ := others
    · cases long
    obtain ⟨first, texts⟩ := List.forall_mem_cons.mp wide
    obtain ⟨firstOther, others⟩ := List.forall_mem_cons.mp wideOther
    have less : rest.length = later.length := Nat.succ.inj long
    obtain _ | ⟨next, rest⟩ := rest
    · -- A last text has nothing behind it on either side.
      rw [List.eq_nil_of_length_eq_zero less.symm] at same ⊢
      rw [String.intercalate_singleton, String.intercalate_singleton] at same
      rw [same]
    · obtain _ | ⟨nextOther, later⟩ := later
      · cases less
      rw [String.intercalate_cons_cons, String.intercalate_cons_cons] at same
      -- The first text comes off together with what stands between it and the next.
      obtain ⟨fronts, rests⟩ := append_inj same (by simp [first, firstOther])
      rw [(append_inj fronts (first.trans firstOther.symm)).1, ih texts others less rests]

end Text

namespace Record

theorem wide_bytes (bytes : List UInt8) : ∀ text ∈ bytes.map Hex.byte, text.length = 2 :=
  List.forall_mem_map.mpr fun byte _ => Hex.length_byte byte

@[simp] theorem length_registersText (registers : Vector UInt8 16) :
    (registersText registers).length = 64 := by
  simp only [registersText, String.length_append, Text.length_intercalate (wide_bytes _),
    List.length_map, Vector.length_toList]
  rfl

theorem registersText_inj {registers others : Vector UInt8 16}
    (same : registersText registers = registersText others) : registers = others := by
  have inner := (String.append_right_inj _).mp ((String.append_left_inj _).mp same)
  have bytes := Text.intercalate_inj (wide_bytes _) (wide_bytes _) (by simp) inner
  exact Vector.toList_inj.mp ((List.map_inj_right fun _ _ => Hex.byte_inj).mp bytes)

/-- All fields but the last have a fixed width, so they come off one by one. -/
theorem executing_text_inj {op other : Opcode} {m n : Machine}
    (same : (executing op m.registers m.index m.pc m.sp).text =
      (executing other n.registers n.index n.pc n.sp).text) :
    op = other ∧ m.registers = n.registers ∧ m.index = n.index ∧ m.pc = n.pc ∧ m.sp = n.sp := by
  unfold text at same
  -- The decimal comes off first; what is left in front of a field is as long on either side.
  obtain ⟨same, sps⟩ := Text.append_inj same (by simp)
  obtain ⟨same, -⟩ := Text.append_inj same (by simp)
  obtain ⟨same, pcs⟩ := Text.append_inj same (by simp)
  obtain ⟨same, -⟩ := Text.append_inj same (by simp)
  obtain ⟨same, indices⟩ := Text.append_inj same (by simp)
  obtain ⟨same, -⟩ := Text.append_inj same (by simp)
  obtain ⟨same, registers⟩ := Text.append_inj same (by simp)
  obtain ⟨ops, -⟩ := Text.append_inj same (by simp)
  exact ⟨Hex.word_inj ops, registersText_inj registers, Hex.word_inj indices, Hex.word_inj pcs,
    UInt8.toNat_inj.mp (Text.toString_inj sps)⟩

end Record

namespace Console

/-! ### Occasions to tell -/

/-- What there is to tell about an input, and how urgent it is. -/
inductive Tells (c : Console) : Input → Level → Record → Prop
  | loaded {pieces : List Rom.Piece} {size : Nat} (taken : (c.load pieces).answer = .ok size) :
      Tells c (.load pieces) .debug (.romLoaded size)
  /-- Whether or not the opcode can be executed, it is told with the registers before it. -/
  | executing {op : Opcode} (ready : c.machine.awaiting = none)
      (fetched : c.machine.fetch = .ok op) :
      Tells c .step .trace
        (.executing op c.machine.registers c.machine.index c.machine.pc c.machine.sp)
  | unknownPress {key : UInt8} (unknown : 15 < key.toNat) :
      Tells c (.press key) .warn (.unknownPress key)
  | unknownRelease {key : UInt8} (unknown : 15 < key.toNat) :
      Tells c (.release key) .warn (.unknownRelease key)
  | dropped {key register : UInt8} (known : key.toNat ≤ 15)
      (awaits : c.machine.awaiting = some register) (missing : 15 < register.toNat) :
      Tells c (.press key) .warn (.droppedKey key register)

/-- The records of a run: what there is to tell about each input at its turn, and nothing else. -/
inductive Logs : Console → Dice → List Input → List Record → Prop
  | done (c : Console) (dice : Dice) : Logs c dice [] []
  | told {c : Console} {dice : Dice} {input : Input} {rest : List Input} {record : Record}
      {later : List Record} (tells : c.Tells input record.level record)
      (goesOn : Logs (c.perform dice.top input).console
        (dice.after (c.perform dice.top input).answer.executed?) rest later) :
      Logs c dice (input :: rest) (record :: later)
  | silent {c : Console} {dice : Dice} {input : Input} {rest : List Input} {later : List Record}
      (quiet : ∀ urgency record, ¬ c.Tells input urgency record)
      (goesOn : Logs (c.perform dice.top input).console
        (dice.after (c.perform dice.top input).answer.executed?) rest later) :
      Logs c dice (input :: rest) later

variable {c : Console} {input : Input} {urgency : Level} {record : Record}

theorem load_records (c : Console) (pieces : List Rom.Piece) :
    (∃ size, (c.load pieces).answer = .ok size ∧ (c.load pieces).records = [.romLoaded size]) ∨
      (∃ cause, (c.load pieces).answer = .error cause) ∧ (c.load pieces).records = [] := by
  unfold load
  split
  next cause _ => exact .inr ⟨⟨cause, rfl⟩, rfl⟩
  next bytes _ => exact .inl ⟨bytes.length, rfl, rfl⟩

theorem Tells.records (tells : c.Tells input urgency record) (random : UInt8) :
    (c.perform random input).records = [record] := by
  cases tells with
  | loaded taken =>
    obtain ⟨size, answer, told⟩ | ⟨⟨cause, refused⟩, -⟩ := c.load_records _
    · cases answer.symm.trans taken
      exact told
    · cases refused.symm.trans taken
  | executing ready fetched => simp [perform, step_records, Machine.told, ready, fetched]
  | unknownPress unknown => simp [perform, press, Machine.press, Nat.not_lt.mpr unknown]
  | unknownRelease unknown => simp [perform, release, Machine.release, Nat.not_lt.mpr unknown]
  | dropped known awaits missing =>
    simp [perform, press, Machine.press, Machine.deliver, Nat.lt_succ_of_le known, awaits,
      Nat.not_lt.mpr missing]

theorem Tells.level (tells : c.Tells input urgency record) : urgency = record.level := by
  cases tells <;> rfl

/-- Where there is nothing to tell, nothing is told. -/
theorem tells_or_silent (c : Console) (random : UInt8) (input : Input) :
    (∃ urgency record, c.Tells input urgency record) ∨ (c.perform random input).records = [] := by
  cases input with
  | load pieces =>
    obtain ⟨size, taken, -⟩ | ⟨-, none⟩ := c.load_records pieces
    · exact .inl ⟨_, _, .loaded taken⟩
    · exact .inr none
  | step =>
    -- The record is written once the opcode is known, before it is known whether it succeeds.
    cases awaits : c.machine.awaiting with
    | some register => exact .inr (by simp [perform, step_records, Machine.told, awaits])
    | none =>
      cases fetched : c.machine.fetch with
      | ok op => exact .inl ⟨_, _, .executing awaits fetched⟩
      | error fault => exact .inr (by simp [perform, step_records, Machine.told, awaits, fetched])
  | press key =>
    by_cases known : key.toNat < 16
    · cases awaits : c.machine.awaiting with
      | none => exact .inr (by simp [perform, press, Machine.press, Machine.deliver, known, awaits])
      | some register =>
        by_cases there : register.toNat < 16
        · exact .inr (by
            simp [perform, press, Machine.press, Machine.deliver, known, awaits, there])
        · exact .inl ⟨_, _, .dropped (Nat.le_of_lt_succ known) awaits (Nat.not_lt.mp there)⟩
    · exact .inl ⟨_, _, .unknownPress (Nat.not_lt.mp known)⟩
  | release key =>
    by_cases known : key.toNat < 16
    · exact .inr (by simp [perform, release, Machine.release, known])
    · exact .inl ⟨_, _, .unknownRelease (Nat.not_lt.mp known)⟩
  | tick | rewind | markShown | edit => exact .inr rfl

/-! ### The records of a run -/

theorem logs_run (c : Console) (dice : Dice) (inputs : List Input) :
    c.Logs dice inputs (c.run dice inputs).records := by
  induction inputs generalizing c dice with
  | nil => exact .done c dice
  | cons input rest ih =>
    obtain ⟨urgency, record, tells⟩ | none := c.tells_or_silent dice.top input
    · simp only [run, tells.records dice.top, List.singleton_append]
      rw [tells.level] at tells
      exact .told tells (ih _ _)
    · simp only [run, none, List.nil_append]
      refine .silent (fun urgency record tells => ?_) (ih _ _)
      -- If there were something to tell, its record would be there.
      cases none.symm.trans (tells.records dice.top)

theorem Logs.records_eq {dice : Dice} {inputs : List Input} {records : List Record}
    (logs : c.Logs dice inputs records) : (c.run dice inputs).records = records := by
  induction logs with
  | done c dice => rfl
  | told tells goesOn ih => simp only [run, tells.records, ih, List.singleton_append]
  | @silent c dice input rest later quiet goesOn ih =>
    -- An input with nothing to tell leaves no record.
    obtain ⟨urgency, record, tells⟩ | none := c.tells_or_silent dice.top input
    · exact absurd tells (quiet urgency record)
    · simp only [run, none, ih, List.nil_append]

/-- A run tells of each rom that it takes in, of each opcode that it fetches, whatever comes of it,
and of each key that it ignores or drops, in order and of nothing else. Fetched opcodes whose texts
are the same are the same, and were fetched with the same registers, index, program counter and
stack pointer. -/
theorem records_faithful (c : Console) (dice : Dice) (inputs : List Input) :
    (∀ records, (c.run dice inputs).records = records ↔ c.Logs dice inputs records) ∧
      ∀ (m n : Machine) (op other : Opcode),
        (Record.executing op m.registers m.index m.pc m.sp).text =
            (Record.executing other n.registers n.index n.pc n.sp).text →
          op = other ∧ m.registers = n.registers ∧ m.index = n.index ∧ m.pc = n.pc ∧
            m.sp = n.sp := by
  refine ⟨fun records => ⟨?_, Logs.records_eq⟩, fun m n op other => Record.executing_text_inj⟩
  rintro rfl
  exact c.logs_run dice inputs

/-- A rom that cannot be read and a step that waits are not told of; machine code is, although it
fails. -/
theorem records_faithful_machineCode :
    let cleared : Machine := initial.machine
    let loaded : Machine := cleared.setRegister 0 1
    let inputs : List Input := [.load [.broken "late"],
      .load [.bytes [0x60, 0x01, 0xF0, 0x0A, 0x01, 0x11]], .step, .press 0x14, .step, .step,
      .release 0x20,
      .edit ({ · with awaiting := some 0x10 }), .press 3, .step]
    initial.Logs (.ofList []) inputs [.romLoaded 6, .executing 0x6001 cleared.registers 0 0x200 0,
        .unknownPress 0x14, .executing 0xF00A loaded.registers 0 0x202 0, .unknownRelease 0x20,
        .droppedKey 3 0x10, .executing 0x0111 loaded.registers 0 0x204 0] ∧
      ∀ op other, (Record.executing op cleared.registers 0 0x200 0).text ≠
        (Record.executing other loaded.registers 0 0x200 0).text := by
  intro cleared loaded inputs
  obtain ⟨told, apart⟩ := records_faithful initial (.ofList []) inputs
  have different : cleared.registers ≠ loaded.registers := by decide
  exact ⟨(told _).mp (by decide +kernel), fun op other same =>
    different (apart cleared loaded op other same).2.1⟩

end Console

end Chip8
