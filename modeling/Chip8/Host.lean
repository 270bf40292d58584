import Chip8.Rom
import Chip8.Screen

/-!
The host of a session: what it grants before the first pass, and what a path in it leads to.
Anything it refuses comes with a reason in its own words.
-/

namespace Chip8

structure Window where
  title : String
  width : UInt32
  height : UInt32
  deriving DecidableEq, Repr

/-- The window in which each cell takes `scale` pixels both ways. The sizes wrap around, as they do
in a build without overflow checks. -/
def Window.ofScale (scale : UInt32) : Window :=
  ⟨"Emu-8", UInt32.ofNat Screen.width * scale, UInt32.ofNat Screen.height * scale⟩

/-- What a path leads to, or why it leads nowhere. -/
inductive Opening where
  /-- A file can be read, and its pieces are known. -/
  | file (pieces : List Rom.Piece)
  /-- A folder can be opened but not read. -/
  | folder
  | refused (reason : String)
  deriving DecidableEq, Repr

namespace Opening

def missing : Opening :=
  .refused "No such file or directory (os error 2)"

def belowFile : Opening :=
  .refused "Not a directory (os error 20)"

/-- What reading delivers; a folder delivers only a reason. -/
def pieces : Opening → List Rom.Piece
  | .file pieces => pieces
  | .folder => [.broken "Is a directory (os error 21)"]
  | .refused reason => [.broken reason]

end Opening

structure Host where
  /-- Whether there is anything to show windows and hear keys with. -/
  system : Except String Unit
  video : Except String Unit
  window : Window → Except String Unit
  canvas : Window → Except String Unit
  /-- Whether events can be listened to. -/
  events : Except String Unit
  opens : String → Opening

namespace Host

/-- A host that grants everything and has one file. -/
def ofFile (name : String) (content : List UInt8) : Host where
  system := .ok ()
  video := .ok ()
  window _ := .ok ()
  canvas _ := .ok ()
  events := .ok ()
  opens path := if path = name then .file [.bytes content] else .missing

/-- Puts up the window. -/
def raise (host : Host) (window : Window) : Except String Unit := do
  host.system
  host.video
  host.window window

/-- Gets a canvas for the window, and the events. -/
def attend (host : Host) (window : Window) : Except String Unit := do
  host.canvas window
  host.events

end Host

end Chip8
