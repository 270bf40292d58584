import Chip8.Memory

/-!
Roms and how they are read. A rom arrives in pieces; how its bytes are spread over them does not
matter. The whole rom is read before its size is judged, so a broken reader wins over a rom that
is too large.
-/

namespace Chip8.Rom

inductive Piece where
  /-- Some bytes; none at all mean the end of the rom. -/
  | bytes (data : List UInt8)
  | interrupted
  | broken (reason : String)
  deriving DecidableEq, Repr

inductive Error where
  | tooLarge (size limit : Nat)
  | unreadable (reason : String)
  deriving DecidableEq, Repr

def Error.message : Error → String
  | .tooLarge size limit =>
    "rom is " ++ toString size ++ " bytes but only " ++ toString limit ++ " fit in memory"
  | .unreadable _ => "failed to read rom"

/-- All bytes up to the end of the rom, or the reason why they cannot be had. -/
def gather : List Piece → Except String (List UInt8)
  | [] => .ok []
  | .bytes [] :: _ => .ok []
  | .bytes (first :: data) :: rest => do return first :: data ++ (← gather rest)
  | .interrupted :: rest => gather rest
  | .broken reason :: _ => .error reason

def read (pieces : List Piece) : Except Error (List UInt8) :=
  match gather pieces with
  | .error reason => .error (.unreadable reason)
  | .ok bytes =>
    if bytes.length ≤ Memory.programSize then .ok bytes
    else .error (.tooLarge bytes.length Memory.programSize)

end Chip8.Rom

namespace Chip8

/-- Memory with a rom in program space; what lies behind the rom stays. -/
def Memory.withRom (memory : Memory) (bytes : List UInt8) : Memory :=
  Cells.overwrite memory Memory.programStart.toNat bytes

end Chip8
