import Chip8.Settings

/-!
How the program ends, as its caller sees it.
-/

namespace Chip8

/-- A status with the texts on both output streams. -/
structure Exit where
  code : UInt32
  output : String
  complaint : String
  deriving DecidableEq, Repr

namespace Exit

def success : Exit :=
  ⟨0, "", ""⟩

def failure (message : String) : Exit :=
  ⟨1, "", message ++ "\n"⟩

def refused (cause : Settings.Error) : Exit :=
  failure cause.message

end Exit

end Chip8
