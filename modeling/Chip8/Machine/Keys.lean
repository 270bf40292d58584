import Chip8.Machine
import Chip8.Record

/-!
Keys going down and coming up. Only the sixteen keypad keys are known; any other is reported and
has no effect. A key that goes down ends the wait for a key.
-/

namespace Chip8.Machine

/-- Hands an awaited key to the register that waits for it. -/
def deliver (m : Machine) (key : UInt8) : Machine × List Record :=
  match m.awaiting with
  | none => (m, [])
  | some register =>
    let served := { m with awaiting := none }
    if known : register.toNat < 16 then
      (served.setRegister ⟨register.toNat, known⟩ key, [])
    else
      (served, [.droppedKey key register])

def press (m : Machine) (key : UInt8) : Machine × List Record :=
  if known : key.toNat < 16 then
    { m with pressed := m.pressed.set key.toNat true }.deliver key
  else
    (m, [.unknownPress key])

def release (m : Machine) (key : UInt8) : Machine × List Record :=
  if known : key.toNat < 16 then
    ({ m with pressed := m.pressed.set key.toNat false }, [])
  else
    (m, [.unknownRelease key])

end Chip8.Machine
