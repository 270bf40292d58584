import Chip8.Console

/-!
Everything that can be done to a console, as data. Inputs are performed one after the other with
one set of dice; each executed instruction that rolls takes the next byte.
-/

namespace Chip8

inductive Input where
  | load (pieces : List Rom.Piece)
  | step
  | press (key : UInt8)
  | release (key : UInt8)
  | tick
  | rewind
  | markShown
  | edit (change : Machine → Machine)

inductive Answer where
  | done
  | loaded (result : Except Rom.Error Nat)
  | stepped (result : Except Fault (Option Instruction))

namespace Answer

def succeeds : Answer → Bool
  | .loaded (.error _) | .stepped (.error _) => false
  | _ => true

def executed? : Answer → Option Instruction
  | .stepped (.ok executed) => executed
  | _ => none

end Answer

namespace Console

def perform (c : Console) (random : UInt8) : Input → Reply Answer
  | .load pieces =>
    let reply := c.load pieces
    ⟨.loaded reply.answer, reply.console, reply.records⟩
  | .step =>
    let reply := c.step random
    ⟨.stepped reply.answer, reply.console, reply.records⟩
  | .press key =>
    let reply := c.press key
    ⟨.done, reply.console, reply.records⟩
  | .release key =>
    let reply := c.release key
    ⟨.done, reply.console, reply.records⟩
  | .tick => ⟨.done, c.tick 1, []⟩
  | .rewind => ⟨.done, c.rewind, []⟩
  | .markShown => ⟨.done, c.markShown, []⟩
  | .edit change => ⟨.done, c.edit change, []⟩

end Console

structure Outcome where
  answers : List Answer
  console : Console
  dice : Dice
  records : List Record

/-- Performs inputs in order, up to and including the first that is refused. -/
def Console.performAll (c : Console) (dice : Dice) : List Input → Outcome
  | [] => ⟨[], c, dice, []⟩
  | input :: rest =>
    let reply := c.perform dice.top input
    let rolled := dice.after reply.answer.executed?
    let later :=
      if reply.answer.succeeds then reply.console.performAll rolled rest
      else ⟨[], reply.console, rolled, []⟩
    { later with
      answers := reply.answer :: later.answers
      records := reply.records ++ later.records }

/-- Consoles by name that share their dice; a console is switched on when it is first named. -/
structure Arcade where
  consoles : List (String × Console)
  dice : Dice

namespace Arcade

def console (arcade : Arcade) (name : String) : Console :=
  (arcade.consoles.lookup name).getD Console.initial

def place (arcade : Arcade) (name : String) (console : Console) : Arcade :=
  { arcade with
    consoles := (name, console) :: arcade.consoles.filter fun entry => entry.1 ≠ name }

def perform (arcade : Arcade) (name : String) (inputs : List Input) : Arcade × Outcome :=
  let outcome := (arcade.console name).performAll arcade.dice inputs
  ({ arcade.place name outcome.console with dice := outcome.dice }, outcome)

end Arcade

end Chip8
