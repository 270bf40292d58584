import Chip8.Console
import Chip8.Keypad

/-!
The player: a console with a clock, a keyboard and a buzzer. Time is counted in nanoseconds since
the start. Timers count down sixty times a second, however the time is cut into passes; the buzzer
is told about only when it changes.
-/

namespace Chip8

inductive Event where
  | key (code : Keycode) (isDown : Bool)
  | quit
  /-- Something the player has no use for. -/
  | other
  deriving DecidableEq, Repr

structure Player where
  console : Console
  dice : Dice
  clock : Nat
  lastCycle : Nat
  /-- The time up to which the timers have counted. -/
  lastTick : Nat
  fastForward : Bool
  rewinding : Bool
  /-- Whether the buzzer was last told to sound. -/
  buzzing : Bool

namespace Player

def timerRate : Nat := 60

/-- Nanoseconds between two ticks of the timers. -/
def timerPeriod : Nat := 1000000000 / timerRate

def start (console : Console) (dice : Dice) : Player where
  console := console
  dice := dice
  clock := 0
  lastCycle := 0
  lastTick := 0
  fastForward := false
  rewinding := false
  buzzing := false

def wait (player : Player) (duration : Nat) : Player :=
  { player with clock := player.clock + duration }

/-! ### Events -/

/-- A keyboard key changes: one under the keypad is passed on, two others control the player. -/
def key (player : Player) (code : Keycode) (isDown : Bool) : Player × List Record :=
  match Keypad.key? code with
  | some digit =>
    let reply := if isDown then player.console.press digit else player.console.release digit
    ({ player with console := reply.console }, reply.records)
  | none =>
    if code = Keycode.space then ({ player with fastForward := isDown }, [])
    else if code = Keycode.escape then ({ player with rewinding := isDown }, [])
    else (player, [])

structure Heard where
  player : Player
  records : List Record
  /-- Whether the player was told to quit; later events are not heard. -/
  quits : Bool

def hear (player : Player) : List Event → Heard
  | [] => ⟨player, [], false⟩
  | .quit :: _ => ⟨player, [], true⟩
  | .other :: rest => player.hear rest
  | .key code isDown :: rest =>
    let (after, records) := player.key code isDown
    let heard := after.hear rest
    { heard with records := records ++ heard.records }

/-! ### Cycles and timers -/

def ticksDue (player : Player) : Nat :=
  (player.clock - player.lastTick) / timerPeriod

/-- Counts the timers down by all ticks that are due. -/
def catchUp (player : Player) : Player :=
  { player with
    console := player.console.tick player.ticksDue
    lastTick := player.lastTick + player.ticksDue * timerPeriod }

/-- Takes one cycle back; the timers start counting afresh. -/
def stepBack (player : Player) : Player :=
  { player with console := player.console.rewind, lastTick := player.clock }

def stepOn (player : Player) : Player × Except Fault (Option Instruction) × List Record :=
  let reply := player.console.step player.dice.top
  let dice :=
    match reply.answer with
    | .ok executed => player.dice.after executed
    | .error _ => player.dice
  ({ player with console := reply.console, dice }, reply.answer, reply.records)

/-! ### Buzzer and pace -/

/-- Tells about the buzzer if the sound timer has switched it. -/
def buzz (player : Player) : Player × List Record :=
  if player.console.machine.sounds = player.buzzing then (player, [])
  else ({ player with buzzing := !player.buzzing }, [.buzzer !player.buzzing])

/-- What is left of a cycle, unless cycles run without a pause. -/
def pause (player : Player) (cycle : Nat) : Nat :=
  if player.fastForward then 0 else cycle - (player.clock - player.lastCycle)

def rest (player : Player) (cycle : Nat) : Player :=
  let rested := player.wait (player.pause cycle)
  { rested with lastCycle := rested.clock }

end Player

end Chip8
