import Chip8.Machine.Execute
import Chip8.Record

/-!
A cycle of the machine: fetch the opcode at the program counter, execute it, move on. While a key
is awaited the machine stands still and nothing is fetched.
-/

namespace Chip8.Machine

/-- The opcode at the program counter, high byte first. -/
def fetch (m : Machine) : Except Fault Opcode :=
  if room : m.pc.toNat + 1 < 4096 then
    .ok (Opcode.ofBytes m.memory[m.pc.toNat] m.memory[m.pc.toNat + 1])
  else
    .error (.outOfBounds (m.pc.toNat + 1))

/-- A return lands on the call; the machine goes on behind it. -/
def resume (m : Machine) : Instruction → Machine
  | .ret => m.next
  | _ => m

def cycle (random : UInt8) (op : Opcode) (m : Machine) : Except Fault (Instruction × Machine) := do
  let (instruction, after) ← m.execute random op
  return (instruction, after.resume instruction)

/-- One cycle: the instruction executed and the machine after it, or nothing while waiting. -/
def step (random : UInt8) (m : Machine) : Except Fault (Option (Instruction × Machine)) :=
  if m.awaiting.isSome then
    .ok none
  else do
    let op ← m.fetch
    return some (← m.cycle random op)

/-- What is told about a cycle: the opcode it fetches and the registers before it. -/
def told (m : Machine) : List Record :=
  if m.awaiting.isSome then
    []
  else
    match m.fetch with
    | .ok op => [.executing op m.registers m.index m.pc m.sp]
    | .error _ => []

end Chip8.Machine
