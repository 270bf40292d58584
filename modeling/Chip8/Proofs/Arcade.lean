import Chip8.Proofs.Safety

/-!
# Dice that consoles share

The consoles of an arcade have one set of dice. The dice belong to no machine, so no snapshot holds
them and nothing gives a byte back: a step that comes to an opcode of family C takes the next byte
of the stream, whichever console makes it and however often it was made before, and nothing else
takes any.

## Main result

`dice_serve_in_turn`: after any moves of any consoles, as many bytes are used up as opcodes of
family C were executed, and the next of them gets the next byte.
-/

namespace Chip8

/-- The opcode that an input takes a random byte for. Only a step does, when it comes to one of
family C. -/
def Console.roll? (c : Console) : Input → Option Opcode
  | .step =>
    match c.machine.awaiting, c.machine.fetch with
    | none, .ok op => if op.family.val = 0xC then some op else none
    | _, _ => none
  | _ => none

/-- An input to the console of this name. -/
structure Move where
  name : String
  input : Input

namespace Arcade

def make (arcade : Arcade) (move : Move) : Arcade :=
  (arcade.perform move.name [move.input]).1

/-- Makes moves in order, whether or not they are refused. -/
def play (arcade : Arcade) (moves : List Move) : Arcade :=
  moves.foldl make arcade

def roll? (arcade : Arcade) (move : Move) : Option Opcode :=
  (arcade.console move.name).roll? move.input

/-- The opcodes that moves take random bytes for, in order. -/
def rolls (arcade : Arcade) : List Move → List Opcode
  | [] => []
  | move :: rest => (arcade.roll? move).toList ++ (arcade.make move).rolls rest

end Arcade

namespace Procedure

/-- An input carried out piece by piece. -/
def input : Input → Procedure Unit
  | .load pieces => do
    let _ ← load pieces
  | .step => cycle
  | .press key => press key
  | .release key => release key
  | .tick => tick
  | .rewind => rewind
  | .markShown => change ({ · with redraw := false })
  | .edit edit => change edit

/-- The store that a procedure ends in, whether it goes through or ends early. -/
def lastStore (work : Procedure Unit) (s : Store) : Store :=
  match work.run s with
  | .ok _ after => after
  | .error _ after => after

end Procedure

/-! ### One input -/

namespace Console

variable {c : Console}

theorem roll?_eq_some_iff (c : Console) (input : Input) (op : Opcode) :
    c.roll? input = some op ↔
      input = .step ∧ c.machine.awaiting = none ∧ c.machine.fetch = .ok op ∧
        op.family.val = 0xC := by
  cases input with
  | step =>
    simp only [roll?, true_and]
    cases c.machine.awaiting with
    | some register => simp
    | none =>
      cases c.machine.fetch with
      | error fault => simp
      | ok found =>
        simp only [Except.ok.injEq, true_and]
        constructor
        · intro rolls
          split at rolls
          next family =>
            cases rolls
            exact ⟨rfl, family⟩
          next => cases rolls
        · rintro ⟨rfl, family⟩
          rw [if_pos family]
  | _ => simp [roll?]

/-- An opcode of family C cannot fail. It leaves its byte in its register and moves on. -/
theorem perform_of_roll {input : Input} {op : Opcode} (rolls : c.roll? input = some op)
    (random : UInt8) :
    (c.perform random input).answer = .stepped (.ok (some (.random op.x op.kk))) ∧
      (c.perform random input).console =
        c.advance (c.machine.setRegister op.x (random &&& op.kk)).next := by
  obtain ⟨rfl, ready, fetched, family⟩ := (c.roll?_eq_some_iff input op).mp rolls
  have decoded : op.decode = .ok (.random op.x op.kk) :=
    (op.decode_eq_ok_iff_means _).mpr ⟨family, rfl, rfl⟩
  have stepped := (c.machine.step_eq_some_iff _ random (.random op.x op.kk)).mpr
    ⟨by rw [ready]; rfl, op, fetched, decoded, _, rfl, rfl⟩
  constructor
  · simp only [perform, step, stepped]
  · simp only [perform, step, stepped]
    rfl

/-- What takes no byte executes nothing that needs one. -/
theorem not_rolls_of_roll?_eq_none {input : Input} (none : c.roll? input = none) (random : UInt8) :
    (c.perform random input).answer.executed?.any Instruction.rolls = false := by
  have performed := c.perform_performed random input
  generalize (c.perform random input).answer.executed? = executed,
    (c.perform random input).console = after at performed ⊢
  cases performed with
  | @executed instruction after stepped =>
    obtain ⟨ready, op, fetched, decoded, -⟩ := (c.machine.step_eq_some_iff _ _ _).mp stepped
    have ready : c.machine.awaiting = .none := by simpa using ready
    -- Of all instructions one rolls, and its opcode is of family C.
    cases instruction with
    | random x kk =>
      have means := (op.decode_eq_ok_iff_means _).mp decoded
      have rolls := (c.roll?_eq_some_iff .step op).mpr ⟨rfl, ready, fetched, means.1⟩
      rw [none] at rolls
      cases rolls
    | _ => rfl
  | _ => rfl

theorem after_of_roll? (c : Console) (dice : Dice) (random : UInt8) (input : Input) :
    dice.after (c.perform random input).answer.executed? =
      { dice with rolled := dice.rolled + (c.roll? input).toList.length } := by
  cases rolls : c.roll? input with
  | none =>
    rw [Dice.after, not_rolls_of_roll?_eq_none rolls random]
    rfl
  | some op =>
    rw [(perform_of_roll rolls random).1]
    rfl

end Console

/-! ### Many consoles -/

namespace Arcade

/-- Taking the entries of one name out of a list hides no other name. -/
theorem lookup_filter (consoles : List (String × Console)) {name other : String}
    (apart : other ≠ name) :
    (consoles.filter fun entry => entry.1 ≠ name).lookup other = consoles.lookup other := by
  induction consoles with
  | nil => rfl
  | cons entry rest ih =>
    obtain ⟨key, console⟩ := entry
    rw [List.filter_cons]
    split
    next kept =>
      rw [List.lookup_cons, List.lookup_cons, ih]
    next dropped =>
      -- The entry that is taken out is not the one looked for.
      have same : key = name := by simpa using dropped
      have differs : (other == key) = false := by simpa [same] using apart
      rw [ih, List.lookup_cons, differs]

theorem console_place (arcade : Arcade) (name other : String) (c : Console) :
    (arcade.place name c).console other = if other = name then c else arcade.console other := by
  unfold console place
  split
  next same =>
    rw [same, List.lookup_cons_self]
    rfl
  next apart =>
    have differs : (other == name) = false := by simpa using apart
    rw [List.lookup_cons, differs, lookup_filter _ apart]

theorem perform_singleton (arcade : Arcade) (name : String) (input : Input) :
    arcade.perform name [input] =
      let reply := (arcade.console name).perform arcade.dice.top input
      let rolled := arcade.dice.after reply.answer.executed?
      ({ arcade.place name reply.console with dice := rolled },
        ⟨[reply.answer], reply.console, rolled, reply.records⟩) := by
  simp only [perform, Console.performAll]
  split <;> simp

theorem console_make (arcade : Arcade) (move : Move) (name : String) :
    (arcade.make move).console name =
      if name = move.name then
        ((arcade.console move.name).perform arcade.dice.top move.input).console
      else
        arcade.console name := by
  rw [make, perform_singleton]
  exact arcade.console_place move.name name _

theorem dice_make (arcade : Arcade) (move : Move) :
    (arcade.make move).dice =
      { arcade.dice with rolled := arcade.dice.rolled + (arcade.roll? move).toList.length } := by
  rw [make, perform_singleton]
  exact Console.after_of_roll? _ _ _ _

/-- What one move takes is counted once, and so is what many moves take. -/
theorem dice_play (arcade : Arcade) (moves : List Move) :
    (arcade.play moves).dice =
      { arcade.dice with rolled := arcade.dice.rolled + (arcade.rolls moves).length } := by
  induction moves generalizing arcade with
  | nil => rfl
  | cons move rest ih =>
    change ((arcade.make move).play rest).dice = _
    rw [ih, dice_make, rolls, List.length_append, Nat.add_assoc]

theorem play_concat (arcade : Arcade) (moves : List Move) (move : Move) :
    arcade.play (moves ++ [move]) = (arcade.play moves).make move :=
  List.foldl_concat make arcade move moves

end Arcade

namespace Procedure

/-- Carried out piece by piece, an input leaves the same machine and takes the same bytes. -/
theorem lastStore_input (i : Input) (s : Store) :
    ((input i).lastStore s).machine = (s.toConsole.perform s.dice.top i).console.machine ∧
      ((input i).lastStore s).dice =
        s.dice.after (s.toConsole.perform s.dice.top i).answer.executed? := by
  cases i with
  | load pieces =>
    simp only [input, lastStore, EStateM.run_bind, run_load]
    exact ⟨rfl, rfl⟩
  | step =>
    -- A step that fails ends early, in the store that it started from.
    simp only [input, lastStore, cycle_eq, run_step, Console.perform, Console.step]
    cases s.machine.step s.dice.top with
    | error fault => exact ⟨rfl, rfl⟩
    | ok result =>
      rcases result with _ | ⟨executed, after⟩
      · exact ⟨rfl, rfl⟩
      · exact ⟨rfl, rfl⟩
  | press key =>
    simp only [input, lastStore, run_press]
    exact ⟨rfl, rfl⟩
  | release key =>
    simp only [input, lastStore, run_release]
    exact ⟨rfl, rfl⟩
  | rewind =>
    simp only [input, lastStore, run_rewind]
    exact ⟨rfl, rfl⟩
  | tick | markShown | edit => exact ⟨rfl, rfl⟩

end Procedure

namespace Arcade

/-- Whatever moves were made, as many bytes are used up as opcodes of family C were executed, taken
back or not. If the next move comes to one, it executes it, which leaves the next byte in its
register, masked, and nothing in another; if not, it executes none and takes no byte. No move
reaches another console, and all of this holds piece by piece as well. -/
theorem dice_serve_in_turn (arcade : Arcade) (moves : List Move) (move : Move) :
    let now := arcade.play moves
    let next := arcade.play (moves ++ [move])
    let c := now.console move.name
    let byte := arcade.dice.stream (arcade.dice.rolled + (arcade.rolls moves).length)
    let answers := (now.perform move.name [move.input]).2.answers
    now.dice = { arcade.dice with rolled := arcade.dice.rolled + (arcade.rolls moves).length } ∧
      (∀ op, now.roll? move = some op →
        answers = [.stepped (.ok (some (.random op.x op.kk)))] ∧
        next.dice = now.dice.roll ∧
        ∀ z, (next.console move.name).machine.register z =
          if z = op.x then byte &&& op.kk else c.machine.register z) ∧
      (now.roll? move = none → next.dice = now.dice ∧
        ∀ x kk, answers ≠ [.stepped (.ok (some (.random x kk)))]) ∧
      (∀ name ≠ move.name, next.console name = now.console name) ∧
      ((Procedure.input move.input).lastStore ⟨c, now.dice⟩).machine =
        (next.console move.name).machine ∧
      ((Procedure.input move.input).lastStore ⟨c, now.dice⟩).dice = next.dice := by
  intro now next c byte answers
  have answered : answers = [(c.perform now.dice.top move.input).answer] := by
    simp only [answers, perform_singleton, c]
  have dice := arcade.dice_play moves
  -- The dice stand behind the bytes that the moves took.
  have top : now.dice.top = byte := congrArg Dice.top dice
  have made : next = now.make move := arcade.play_concat moves move
  have taken := now.dice_make move
  have console : next.console move.name = (c.perform now.dice.top move.input).console := by
    rw [made, console_make, if_pos rfl]
  refine ⟨dice, fun op rolls => ⟨?_, ?_, fun z => ?_⟩, fun none => ⟨?_, fun x kk same => ?_⟩,
    fun name apart => ?_, ?_⟩
  · rw [answered, (Console.perform_of_roll rolls _).1]
  · rw [made, taken, rolls]
    rfl
  · rw [console, (Console.perform_of_roll rolls _).2, top]
    exact Machine.register_setRegister _ _ _ _
  · rw [made, taken, none]
    rfl
  · have unrolled := Console.not_rolls_of_roll?_eq_none none now.dice.top
    rw [List.singleton_inj.mp (answered.symm.trans same)] at unrolled
    cases unrolled
  · rw [made, console_make, if_neg apart]
  · obtain ⟨machine, rolled⟩ := Procedure.lastStore_input move.input ⟨c, now.dice⟩
    refine ⟨machine.trans (congrArg Console.machine console).symm, rolled.trans ?_⟩
    rw [made, make, perform_singleton]

/-- An opcode that is executed again after it was taken back gets another byte, and so does one that
masks all of it away. -/
theorem dice_serve_in_turn_again :
    let arcade : Arcade := ⟨[], Dice.ofList [0xA1, 0xA2, 0xA3, 0xA4]⟩
    let moves : List Move := [⟨"left", .load [.bytes [0xC0, 0xFF, 0xC1, 0x0F]]⟩,
      ⟨"right", .load [.bytes [0xC0, 0x00]]⟩, ⟨"left", .step⟩, ⟨"left", .rewind⟩, ⟨"right", .step⟩,
      ⟨"left", .step⟩]
    let next := arcade.play (moves ++ [⟨"left", .step⟩])
    arcade.rolls moves = [0xC0FF, 0xC000, 0xC0FF] ∧
      (arcade.play moves).roll? ⟨"left", .step⟩ = some 0xC10F ∧
      (arcade.play moves).dice.rolled = 3 ∧ next.dice.rolled = 4 ∧
      (next.console "left").machine.register 1 = 0x04 := by
  intro arcade moves next
  have facts : arcade.rolls moves = [0xC0FF, 0xC000, 0xC0FF] ∧
      (arcade.play moves).roll? ⟨"left", .step⟩ = some 0xC10F := by
    decide +kernel
  obtain ⟨taken, rolls⟩ := facts
  obtain ⟨dice, serves, -⟩ := arcade.dice_serve_in_turn moves ⟨"left", .step⟩
  obtain ⟨-, rolled, registers⟩ := serves 0xC10F rolls
  rw [taken] at dice registers
  have used : (arcade.play moves).dice.rolled = 3 := congrArg Dice.rolled dice
  refine ⟨taken, rolls, used, ?_, ?_⟩
  · exact (congrArg Dice.rolled rolled).trans (congrArg Nat.succ used)
  · have here : (1 : Nibble) = Opcode.x 0xC10F := rfl
    have masked : (Dice.ofList [0xA1, 0xA2, 0xA3, 0xA4]).stream 3 &&& Opcode.kk 0xC10F = 0x04 := by
      decide
    exact ((registers 1).trans (if_pos here)).trans masked

end Arcade

end Chip8
