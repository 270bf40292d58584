import Chip8.Exit
import Chip8.Player.Session
import Chip8.Terminal

/-!
The program: plays a rom in the terminal until the input ends. All decisions are the player's; here
lines are read, screens are printed and time is measured.
-/

namespace Chip8.Main

def openFile (path : String) : IO Opening := do
  try
    return .file [.bytes (← IO.FS.readBinFile path).toList]
  catch error =>
    match error with
    | .noFileOrDirectory .. => return .missing
    | .inappropriateType _ code _ => return if code = 21 then .folder else .belowFile
    | _ => return .refused (toString error)

partial def listen (input : IO.FS.Stream) (inbox : IO.Ref (List Event)) (before : List Keycode) :
    IO Unit := do
  let text ← input.getLine
  if text.isEmpty then
    inbox.modify (· ++ [.quit])
  else
    let now := Terminal.held text
    inbox.modify (· ++ Terminal.changes before now)
    listen input inbox now

/-- Runs pass after pass; the player's clock counts from `origin`. -/
partial def loop (cycle origin : Nat) (inbox : IO.Ref (List Event)) (player : Player) :
    IO Exit := do
  let events ← inbox.modifyGet fun waiting => (waiting, [])
  let roll ← IO.rand 0 255
  let now ← IO.monoNanosNow
  let ready := { player with dice := ⟨fun _ => UInt8.ofNat roll, player.dice.rolled⟩ }
  let (after, report) := ready.pass cycle ⟨now - origin - player.clock, events, .plain⟩
  if let some texture := report.frame then
    IO.print (Terminal.paint texture.image)
  match report.activity with
  | .quit => return Exit.success
  | .failed fault => return Exit.failure fault.message
  | .unshown reason => return Exit.failure reason
  | _ =>
    IO.sleep (UInt32.ofNat (report.slept / 1000000))
    loop cycle origin inbox after

def play (settings : Settings) : IO Exit := do
  match Session.prepare settings (← openFile settings.rom) (Dice.ofList []) with
  | .error failure => return Exit.failure failure.message
  | .ok (player, _) =>
    let inbox ← IO.mkRef []
    let _ ← IO.asTask (listen (← IO.getStdin) inbox []) Task.Priority.dedicated
    loop settings.cycle (← IO.monoNanosNow) inbox player

end Chip8.Main

def main (arguments : List String) : IO UInt32 := do
  let ending ← match Chip8.Settings.ofArguments arguments with
    | .error cause => pure (Chip8.Exit.refused cause)
    | .ok settings => Chip8.Main.play settings
  IO.print ending.output
  IO.eprint ending.complaint
  return ending.code
