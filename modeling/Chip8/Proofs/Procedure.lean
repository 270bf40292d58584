import Chip8.Console

/-!
# Instructions as procedures

An instruction is one function on machines elsewhere. Here it is carried out piece by piece: checks
and writes come one after the other, and every access to a cell, every run of cells and every
number that has to fit a word is checked when its turn comes. A procedure that ends early leaves
behind what it has written until then, so that nothing is atomic by construction.

`execute` and `step` take the instruction as the decoder has it, for what is proved of instructions
one by one. The same with the opcode cut up and put together by checked shifts is `dispatch` and
`cycle`, in `Procedure/Word`; the two are equal there, so what holds of one holds of the other.
-/

namespace Chip8

/-- What a procedure works on: a console, and the dice beside it. -/
structure Store extends Console where
  dice : Dice

/-- Why a procedure ends early. -/
inductive Stop where
  /-- The running program is at fault. -/
  | fault (cause : Fault)
  /-- A cell or a run of cells does not exist, or a number does not fit its word. -/
  | stuck

abbrev Procedure := EStateM Stop Store

namespace Cells

variable {α : Type} {size : Nat}

def set? (cells : Vector α size) (place : Nat) (value : α) : Option (Vector α size) :=
  if inside : place < size then some (cells.set place value) else none

def slice? (cells : Vector α size) (start stop : Nat) : Option (List α) :=
  if start ≤ stop ∧ stop ≤ size then some (slice cells start stop) else none

/-- Copies values onto the cells from `start` up to `stop`, if those exist and are as many. -/
def copy? (cells : Vector α size) (start stop : Nat) (values : List α) :
    Option (Vector α size) :=
  if start ≤ stop ∧ stop ≤ size ∧ values.length = stop - start then
    some (overwrite cells start values)
  else
    none

end Cells

namespace Procedure

/-! ### Checked pieces -/

def refuse {α : Type} (cause : Fault) : Procedure α :=
  throw (.fault cause)

def need {α : Type} : Option α → Procedure α
  | some value => pure value
  | none => throw .stuck

/-- Goes on with a sum or product that has to fit a word with so many values. -/
def fit (size value : Nat) : Procedure Nat :=
  if value < size then pure value else throw .stuck

/-- Goes on with a difference that must not fall below zero. -/
def minus (a b : Nat) : Procedure Nat :=
  if b ≤ a then pure (a - b) else throw .stuck

/-- Shifts a byte by less than its width. -/
def shift (operation : UInt8 → UInt8 → UInt8) (byte : UInt8) (places : Nat) : Procedure UInt8 :=
  if places < 8 then pure (operation byte (UInt8.ofNat places)) else throw .stuck

def machine : Procedure Machine :=
  return (← get).machine

def change (edit : Machine → Machine) : Procedure Unit :=
  modify fun s => { s with machine := edit s.machine }

def register (x : Nat) : Procedure UInt8 := do
  need (← machine).registers[x]?

def setRegister (x : Nat) (value : UInt8) : Procedure Unit := do
  let registers ← need (Cells.set? (← machine).registers x value)
  change ({ · with registers })

/-- Moves on; the program counter may wrap around. -/
def advance (skip : Bool) : Procedure Unit :=
  change fun m => { m with pc := m.pc + if skip then 4 else 2 }

/-- The span of `length` bytes from `start` on. The sum is checked, as in a build with overflow
checks: where it does not fit a word, the procedure is stuck. -/
def span (start : UInt16) (length : Nat) : Procedure Span :=
  if length = 0 then
    pure ⟨min start.toNat Memory.size, min start.toNat Memory.size⟩
  else do
    let stop ← fit UInt64.size (start.toNat + length)
    if Memory.size < stop then
      refuse (.outOfBounds (← minus stop 1))
    else
      pure ⟨start.toNat, stop⟩

def roll : Procedure UInt8 := do
  let dice := (← get).dice
  modify ({ · with dice := dice.roll })
  return dice.top

/-! ### Instructions -/

def keyDown (x : Nat) : Procedure Bool := do
  let key := (← register x) &&& 0xF
  need (← machine).pressed[key.toNat]?

def holds : Condition → Procedure Bool
  | .equalsByte x kk => return (← register x) = kk
  | .differsByte x kk => return (← register x) ≠ kk
  | .equals x y => return (← register x) = (← register y)
  | .differs x y => return (← register x) ≠ (← register y)
  | .keyDown x => keyDown x
  | .keyUp x => return !(← keyDown x)

/-- The result of an operation on two registers. Most wrap around, and the shifts check. -/
def result (a b : UInt8) : Arithmetic → Procedure UInt8
  | .shiftRight => shift (· >>> ·) a 1
  | .shiftLeft => shift (· <<< ·) a 1
  | operation => return operation.result a b

def calculate (operation : Arithmetic) (x y : Nat) : Procedure Unit := do
  let a ← register x
  let b ← register y
  setRegister x (← result a b operation)
  -- The flag comes last, and so wins where both go to the same register.
  match operation.flag? a b with
  | some flag => setRegister 0xF (if flag then 1 else 0)
  | none => pure ()
  advance false

def ret : Procedure Unit := do
  let m ← machine
  if m.sp = 0 then
    refuse (.stackUnderflow m.pc)
  else if 16 < m.sp.toNat then
    refuse (.stackOverflow m.pc)
  else
    -- The pointer is lowered before the slot is read.
    let sp := UInt8.ofNat (← minus m.sp.toNat 1)
    change ({ · with sp })
    let pc ← need m.stack[sp.toNat]?
    change ({ · with pc })

def call (target : Address) : Procedure Unit := do
  let m ← machine
  if 16 ≤ m.sp.toNat then
    refuse (.stackOverflow m.pc)
  else
    let stack ← need (Cells.set? m.stack m.sp.toNat m.pc)
    change ({ · with stack })
    let sp := UInt8.ofNat (← fit UInt8.size (m.sp.toNat + 1))
    change ({ · with sp })
    change ({ · with pc := UInt16.ofNat target.val })

/-- Draws one bit of a sprite row, and answers the collision so far. -/
def drawBit (left line : Nat) (row collision : UInt8) (bit : Nat) : Procedure UInt8 := do
  let x := (← fit UInt64.size (left + bit)) % Screen.width
  let value := (← shift (· >>> ·) row (← minus 7 bit)) &&& 1
  let cell ← fit UInt64.size (line * Screen.width + x)
  let screen := (← machine).screen
  let pixel ← need screen[cell]?
  let screen ← need (Cells.set? screen cell (pixel ^^^ value))
  change ({ · with screen })
  return collision ||| (value &&& pixel)

def drawRow (left top : Nat) (collision : UInt8) (row : Nat × Nat) : Procedure UInt8 := do
  let byte ← need (← machine).memory[row.1]?
  let line := (← fit UInt64.size (top + row.2)) % Screen.height
  (List.range 8).foldlM (drawBit left line byte) collision

/-- Draws the rows of a sprite one after the other, and answers whether any of them collides. -/
def drawRows (left top : Nat) (place : Span) : Procedure UInt8 :=
  (List.range' place.start (place.stop - place.start)).zipIdx.foldlM (drawRow left top) 0

def draw (x y : Nat) (rows : Nat) : Procedure Unit := do
  let place ← span (← machine).index rows
  -- The corner is read before the flag can overwrite it.
  let left ← register x
  let top ← register y
  let collision ← drawRows left.toNat top.toNat place
  setRegister 0xF collision
  change ({ · with redraw := true })
  advance false

def decimal (x : Nat) : Procedure Unit := do
  let place ← span (← machine).index 3
  let value ← register x
  let digits := [value / 100 % 10, value / 10 % 10, value % 10]
  let memory ← need (Cells.copy? (← machine).memory place.start place.stop digits)
  change ({ · with memory })
  advance false

def save (x : Nat) : Procedure Unit := do
  let count ← fit UInt64.size (x + 1)
  let place ← span (← machine).index count
  let bytes ← need (Cells.slice? (← machine).registers 0 count)
  let memory ← need (Cells.copy? (← machine).memory place.start place.stop bytes)
  change ({ · with memory })
  advance false

def restore (x : Nat) : Procedure Unit := do
  let count ← fit UInt64.size (x + 1)
  let place ← span (← machine).index count
  let bytes ← need (Cells.slice? (← machine).memory place.start place.stop)
  let registers ← need (Cells.copy? (← machine).registers 0 count bytes)
  change ({ · with registers })
  advance false

def apply : Instruction → Procedure Unit
  | .clear => do
    change ({ · with screen := Screen.blank })
    change ({ · with redraw := true })
    advance false
  | .ret => ret
  | .jump target => change ({ · with pc := UInt16.ofNat target.val })
  | .call target => call target
  | .skip condition => do advance (← holds condition)
  | .setByte x kk => do
    setRegister x kk
    advance false
  | .addByte x kk => do
    setRegister x ((← register x) + kk)
    advance false
  | .arithmetic operation x y => calculate operation x y
  | .setIndex target => do
    change ({ · with index := UInt16.ofNat target.val })
    advance false
  | .jumpOffset target => do
    let pc := UInt16.ofNat (← fit UInt16.size ((← register 0).toNat + target.val))
    change ({ · with pc })
  | .random x kk => do
    let byte ← roll
    setRegister x (byte &&& kk)
    advance false
  | .draw x y rows => draw x y rows
  | .readDelay x => do
    setRegister x (← machine).delay
    advance false
  | .awaitKey x => do
    change ({ · with awaiting := some (UInt8.ofNat x.val) })
    advance false
  | .setDelay x => do
    let delay ← register x
    change ({ · with delay })
    advance false
  | .setSound x => do
    let sound ← register x
    change ({ · with sound })
    advance false
  | .addIndex x => do
    let byte ← register x
    change fun m => { m with index := m.index + byte.toUInt16 }
    advance false
  | .glyph x => do
    let digit := (← register x) &&& 0xF
    let index := UInt16.ofNat (← fit UInt16.size (digit.toNat * Font.glyphHeight))
    change ({ · with index })
    advance false
  | .decimal x => decimal x
  | .save x => save x
  | .restore x => restore x

def execute (op : Opcode) : Procedure Unit :=
  match op.decode with
  | .ok instruction => apply instruction
  | .error cause => refuse cause

/-! ### Steps -/

def fetch : Procedure Opcode := do
  let m ← machine
  let place ← span m.pc 2
  let bytes ← need (Cells.slice? m.memory place.start place.stop)
  let high ← need bytes[0]?
  let low ← need bytes[1]?
  return high.toUInt16 <<< 8 ||| low.toUInt16

/-- Puts a state on top of the history. From a full history the oldest state is dropped. -/
def remember (state : Machine) : Procedure Unit :=
  modify fun s =>
    let kept := if s.history.length = Console.historyLimit then s.history.dropLast else s.history
    { s with history := state :: kept }

def step : Procedure Unit := do
  if (← machine).awaiting.isSome then
    return
  let op ← fetch
  let left ← machine
  execute op
  -- A return lands on the call, and goes on behind it.
  if op = 0x00EE then
    advance false
  remember left

end Procedure

end Chip8
