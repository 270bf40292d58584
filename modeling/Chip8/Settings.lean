import Chip8.Text.Numeral

/-!
The command line of the player. Arguments are first cut into tokens, which never fails, and the
tokens are then taken in one by one. The first token that cannot be taken decides the error; that
the rom is missing shows only at the end.
-/

namespace Chip8

structure Settings where
  rom : String
  /-- How many pixels of the window a cell is wide and high. -/
  scale : Nat
  /-- How many nanoseconds a cycle lasts. -/
  cycle : Nat
  deriving DecidableEq, Repr

namespace Settings

inductive Flag where
  | scale | speed
  deriving DecidableEq, Repr

def Flag.name : Flag → String
  | .scale => "--scale"
  | .speed => "--speed"

def Flag.named? (argument : String) : Option Flag :=
  if argument = Flag.scale.name then some .scale
  else if argument = Flag.speed.name then some .speed
  else none

inductive Token where
  /-- A flag with the argument behind it, whatever that looks like. -/
  | option (flag : Flag) (value : Option String)
  | unknownFlag (argument : String)
  | word (argument : String)
  deriving DecidableEq, Repr

/-- The token of an argument that takes no value: two dashes make a flag. -/
def Token.alone (argument : String) : Token :=
  if "--".toList.isPrefixOf argument.toList then .unknownFlag argument else .word argument

def tokens : List String → List Token
  | [] => []
  | [argument] =>
    match Flag.named? argument with
    | some flag => [.option flag none]
    | none => [.alone argument]
  | argument :: value :: rest =>
    match Flag.named? argument with
    | some flag => .option flag (some value) :: tokens rest
    | none => .alone argument :: tokens (value :: rest)

inductive Error where
  | missingValue (flag : Flag)
  | invalidValue (flag : Flag) (value : String)
  | zeroSpeed
  | unknownFlag (argument : String)
  | unexpected (argument : String)
  | missingRom
  deriving DecidableEq, Repr

def usage : String :=
  "usage: chip8 <rom> [--scale N] [--speed HZ]"

def Error.message : Error → String
  | .missingValue flag => flag.name ++ " needs a value"
  | .invalidValue flag value => flag.name ++ " got an invalid value " ++ value
  | .zeroSpeed => "--speed must be above 0"
  | .unknownFlag argument => "unknown flag " ++ argument ++ "\n" ++ usage
  | .unexpected argument => "unexpected argument " ++ argument ++ "\n" ++ usage
  | .missingRom => "expected a ROM file path\n" ++ usage

def second : Nat := 1000000000

/-- How long a cycle lasts if no speed is asked for. -/
def defaultCycle : Nat := 2000000

def defaultScale : Nat := 10

/-- Settings that may still lack a rom. -/
structure Draft where
  rom : Option String
  scale : Nat
  cycle : Nat
  deriving DecidableEq, Repr

def Draft.empty : Draft :=
  ⟨none, defaultScale, defaultCycle⟩

def number (flag : Flag) (bound : Nat) : Option String → Except Error Nat
  | none => .error (.missingValue flag)
  | some value =>
    match Numeral.read? bound value with
    | some result => .ok result
    | none => .error (.invalidValue flag value)

/-- Takes one token in. A scale has 32 bits and a speed 64; later values replace earlier ones. -/
def Draft.take (draft : Draft) : Token → Except Error Draft
  | .option .scale value => do
    return { draft with scale := ← number .scale UInt32.size value }
  | .option .speed value => do
    let hertz ← number .speed UInt64.size value
    if hertz = 0 then .error .zeroSpeed else .ok { draft with cycle := second / hertz }
  | .unknownFlag argument => .error (.unknownFlag argument)
  | .word argument =>
    match draft.rom with
    | none => .ok { draft with rom := some argument }
    | some _ => .error (.unexpected argument)

def Draft.finish (draft : Draft) : Except Error Settings :=
  match draft.rom with
  | none => .error .missingRom
  | some rom => .ok ⟨rom, draft.scale, draft.cycle⟩

/-- The settings of a command line, without the program's own name. -/
def ofArguments (arguments : List String) : Except Error Settings := do
  ((tokens arguments).foldlM Draft.take Draft.empty) >>= Draft.finish

end Settings

end Chip8
