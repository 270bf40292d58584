import Chip8.Dice
import Chip8.Machine.Cycle
import Chip8.Machine.Keys
import Chip8.Rom

/-!
A console: a machine and the states it was in. Every step that executes an instruction is
remembered, the latest 600 at most, and can be taken back. All other operations leave the history
alone.
-/

namespace Chip8

/-- A machine with its past states, the latest first. -/
structure Console where
  machine : Machine
  history : List Machine
  deriving DecidableEq

/-- The answer of an operation, the console after it, and what there is to tell. -/
structure Reply (α : Type) where
  answer : α
  console : Console
  records : List Record

namespace Console

def historyLimit : Nat := 600

def initial : Console :=
  ⟨Machine.initial, []⟩

def edit (c : Console) (change : Machine → Machine) : Console :=
  { c with machine := change c.machine }

/-- Moves on to a new state; the state left behind is remembered and the oldest forgotten. -/
def advance (c : Console) (after : Machine) : Console :=
  ⟨after, (c.machine :: c.history).take historyLimit⟩

/--
Executes the instruction at the program counter and answers it. While a key is awaited nothing
happens; after a fault nothing has changed.
-/
def step (c : Console) (random : UInt8) : Reply (Except Fault (Option Instruction)) :=
  match c.machine.step random with
  | .error fault => ⟨.error fault, c, c.machine.told⟩
  | .ok none => ⟨.ok none, c, c.machine.told⟩
  | .ok (some (instruction, after)) => ⟨.ok (some instruction), c.advance after, c.machine.told⟩

/-- Goes back to the latest state in the history, if there is one, and has it shown. -/
def rewind (c : Console) : Console :=
  match c.history with
  | [] => c
  | latest :: older => ⟨{ latest with redraw := true }, older⟩

def load (c : Console) (pieces : List Rom.Piece) : Reply (Except Rom.Error Nat) :=
  match Rom.read pieces with
  | .error cause => ⟨.error cause, c, []⟩
  | .ok bytes =>
    ⟨.ok bytes.length, c.edit fun m => { m with memory := m.memory.withRom bytes },
      [.romLoaded bytes.length]⟩

def press (c : Console) (key : UInt8) : Reply Unit :=
  let (machine, records) := c.machine.press key
  ⟨(), { c with machine }, records⟩

def release (c : Console) (key : UInt8) : Reply Unit :=
  let (machine, records) := c.machine.release key
  ⟨(), { c with machine }, records⟩

/-- Both timers count down. -/
def tick (c : Console) (count : Nat) : Console :=
  c.edit (·.tick count)

def frame? (c : Console) : Option Screen :=
  if c.machine.redraw then some c.machine.screen else none

def markShown (c : Console) : Console :=
  c.edit fun m => { m with redraw := false }

end Console

end Chip8
