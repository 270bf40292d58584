import Chip8.Opcode
import Chip8.Text.Hex

/-!
Log records: what is worth telling about a running machine, and how it is told. The registers in
an `executing` record are those before the instruction.
-/

namespace Chip8

/-- How urgent a record is, the most urgent first. -/
inductive Level where
  | error | warn | info | debug | trace
  deriving DecidableEq, Repr

def Level.rank : Level → Nat
  | .error => 0
  | .warn => 1
  | .info => 2
  | .debug => 3
  | .trace => 4

inductive Record where
  | romLoaded (size : Nat)
  | executing (op : Opcode) (registers : Vector UInt8 16) (index pc : UInt16) (sp : UInt8)
  | unknownPress (key : UInt8)
  | unknownRelease (key : UInt8)
  /-- A key arrived for a register that does not exist. -/
  | droppedKey (key register : UInt8)
  | romOpened (path : String) (size : Nat)
  | buzzer (on : Bool)
  deriving DecidableEq

namespace Record

def level : Record → Level
  | .romLoaded _ | .buzzer _ => .debug
  | .executing .. => .trace
  | .unknownPress _ | .unknownRelease _ | .droppedKey .. => .warn
  | .romOpened .. => .info

def registersText (registers : Vector UInt8 16) : String :=
  "[" ++ ", ".intercalate (registers.toList.map Hex.byte) ++ "]"

def text : Record → String
  | .romLoaded size => "loaded " ++ toString size ++ " byte rom at 0x0200"
  | .executing op registers index pc sp =>
    Hex.word op ++ " v" ++ registersText registers ++ " i" ++ Hex.word index
      ++ " pc" ++ Hex.word pc ++ " sp" ++ toString sp.toNat
  | .unknownPress key => "ignoring press of unknown key 0x" ++ Hex.padded 1 key.toNat
  | .unknownRelease key => "ignoring release of unknown key 0x" ++ Hex.padded 1 key.toNat
  | .droppedKey key register =>
    "dropping key 0x" ++ Hex.padded 1 key.toNat
      ++ " meant for unknown register 0x" ++ Hex.padded 1 register.toNat
  | .romOpened path size => "loaded " ++ path ++ " (" ++ toString size ++ " bytes)"
  | .buzzer on => if on then "buzzer on" else "buzzer off"

/-- Whether a record is told to a listener who wants `threshold` and everything more urgent. -/
def heardAt (threshold : Option Level) (record : Record) : Bool :=
  match threshold with
  | none => false
  | some least => record.level.rank ≤ least.rank

end Record

end Chip8
