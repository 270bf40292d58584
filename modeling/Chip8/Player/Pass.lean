import Chip8.Canvas
import Chip8.Player

/-!
Passes of the player. A pass shows the screen if it has changed, listens, runs one cycle forwards
or backwards, sees to the buzzer and sleeps for the rest of the cycle. A pass that hears a quit,
meets a fault or cannot show the screen is the last one.
-/

namespace Chip8

/-- What a pass gets from outside: a canvas for its frame, the time since the previous pass and the
events of that time. -/
structure Pass where
  advance : Nat
  events : List Event
  canvas : Canvas

def Pass.last : Pass :=
  ⟨0, [.quit], .plain⟩

inductive Activity where
  | executed (instruction : Instruction)
  | waited
  | steppedBack
  | atBeginning
  | quit
  | failed (fault : Fault)
  /-- The frame was refused, and nothing else was done. -/
  | unshown (reason : String)
  deriving DecidableEq, Repr

namespace Activity

def goesOn : Activity → Bool
  | .quit | .failed _ | .unshown _ => false
  | _ => true

/-- Whether a pass came to its events. -/
def hears : Activity → Bool
  | .unshown _ => false
  | _ => true

end Activity

structure Report where
  /-- The texture that the pass put on show, if it did. -/
  frame : Option Texture
  activity : Activity
  ticks : Nat
  slept : Nat
  records : List Record

namespace Player

/-- Puts the screen on show if it has changed. -/
def render (player : Player) (canvas : Canvas) : Except String (Option Texture) :=
  match player.console.frame? with
  | none => .ok none
  | some screen => (canvas.render screen.picture).map some

def present (player : Player) : Player :=
  match player.console.frame? with
  | none => player
  | some _ => { player with console := player.console.markShown }

/-- A cycle of the player: what was done, how many ticks followed, and what there is to tell. -/
def turn (player : Player) : Player × Activity × Nat × List Record :=
  if player.rewinding then
    match player.console.history with
    | [] => (player.stepBack, .atBeginning, 0, [])
    | _ :: _ => (player.stepBack, .steppedBack, 0, [])
  else
    match player.stepOn with
    | (after, .error fault, records) => (after, .failed fault, 0, records)
    | (after, .ok none, records) => (after.catchUp, .waited, after.ticksDue, records)
    | (after, .ok (some instruction), records) =>
      (after.catchUp, .executed instruction, after.ticksDue, records)

/-- What is left of a pass once its frame is on show. -/
def proceed (player : Player) (cycle : Nat) (input : Pass) (frame : Option Texture) :
    Player × Report :=
  let heard := (player.present.wait input.advance).hear input.events
  if heard.quits then
    (heard.player, ⟨frame, .quit, 0, 0, heard.records⟩)
  else
    let (turned, activity, ticks, told) := heard.player.turn
    if activity.goesOn then
      let (buzzed, buzz) := turned.buzz
      (buzzed.rest cycle,
        ⟨frame, activity, ticks, buzzed.pause cycle, heard.records ++ told ++ buzz⟩)
    else
      (turned, ⟨frame, activity, 0, 0, heard.records ++ told⟩)

def pass (player : Player) (cycle : Nat) (input : Pass) : Player × Report :=
  match player.render input.canvas with
  | .error reason => (player, ⟨none, .unshown reason, 0, 0, []⟩)
  | .ok frame => player.proceed cycle input frame

/-- Passes one after the other, up to and including the first that is the last. -/
def play (player : Player) (cycle : Nat) : List Pass → Player × List Report
  | [] => (player, [])
  | input :: rest =>
    let (after, report) := player.pass cycle input
    if report.activity.goesOn then
      let (final, reports) := after.play cycle rest
      (final, report :: reports)
    else
      (after, [report])

end Player

end Chip8
