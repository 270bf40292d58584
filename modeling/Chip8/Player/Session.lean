import Chip8.Host
import Chip8.Player.Pass
import Chip8.Settings

/-!
A session of the player, from its command line to its last pass. The window is put up before the rom
is opened, and passes begin once the rom is in memory. Whatever ends a session early, the account of
it up to there is complete.
-/

namespace Chip8

/-- Why a session ends other than by a quit. -/
inductive Failure where
  | settings (cause : Settings.Error)
  /-- The host does not grant what it was asked for. -/
  | unavailable (reason : String)
  | unopened (path reason : String)
  | rom (cause : Rom.Error)
  | fault (cause : Fault)
  deriving DecidableEq, Repr

def Failure.message : Failure → String
  | .settings cause => cause.message
  | .unavailable reason => reason
  | .unopened path reason => "unable to open " ++ path ++ ": " ++ reason
  | .rom cause => cause.message
  | .fault cause => cause.message

def Activity.failure? : Activity → Option Failure
  | .failed fault => some (.fault fault)
  | .unshown reason => some (.unavailable reason)
  | _ => none

/-- The window that is asked for. -/
def Settings.window (settings : Settings) : Window :=
  Window.ofScale (UInt32.ofNat settings.scale)

structure Session where
  window : Option Window
  /-- What there was to tell before the first pass. -/
  opening : List Record
  reports : List Report
  player : Player
  failure : Option Failure

namespace Session

/-- A session that ends before its first pass. -/
def refused (dice : Dice) (window : Option Window) (failure : Failure) : Session where
  window := window
  opening := []
  reports := []
  player := Player.start Console.initial dice
  failure := some failure

def prepare (settings : Settings) (found : Opening) (dice : Dice) :
    Except Failure (Player × List Record) :=
  match found with
  | .refused reason => .error (.unopened settings.rom reason)
  | opened =>
    let loaded := Console.initial.load opened.pieces
    match loaded.answer with
    | .error cause => .error (.rom cause)
    | .ok size =>
      .ok (Player.start loaded.console dice,
        loaded.records ++ [.romOpened settings.rom size])

/-- All that comes before the first pass, or the failure that keeps it from being, with the window
if that was up by then. -/
def launch (settings : Settings) (host : Host) (dice : Dice) :
    Except (Option Window × Failure) (Player × List Record) := do
  (host.raise settings.window).mapError fun reason => (none, .unavailable reason)
  (host.attend settings.window).mapError fun reason =>
    (some settings.window, .unavailable reason)
  (prepare settings (host.opens settings.rom) dice).mapError fun failure =>
    (some settings.window, failure)

/-- The session of a player that is ready for its first pass. -/
def played (window : Window) (opening : List Record) (player : Player) (cycle : Nat)
    (script : List Pass) : Session :=
  let (final, reports) := player.play cycle (script ++ [Pass.last])
  { window := some window
    opening := opening
    reports := reports
    player := final
    failure := reports.findSome? fun report => report.activity.failure? }

def ofSettings (settings : Settings) (host : Host) (dice : Dice) (script : List Pass) : Session :=
  match launch settings host dice with
  | .error (window, failure) => refused dice window failure
  | .ok (player, opening) => played settings.window opening player settings.cycle script

def ofArguments (arguments : List String) (host : Host) (dice : Dice) (script : List Pass) :
    Session :=
  match Settings.ofArguments arguments with
  | .error cause => refused dice none (.settings cause)
  | .ok settings => ofSettings settings host dice script

/-! ### Views of an account -/

/-- The frames shown, each with the number of passes that had ended by then. -/
def frames (session : Session) : List (Nat × Picture) :=
  session.reports.zipIdx.filterMap fun (report, ended) =>
    report.frame.map fun texture => (ended, texture.image)

/-- How many passes ended; one that a quit cuts short or that shows nothing did not. -/
def passes (session : Session) : Nat :=
  session.reports.countP fun report => report.activity.hears && report.activity ≠ .quit

def sleeps (session : Session) : List Nat :=
  (session.reports.map Report.slept).filter (0 < ·)

def records (session : Session) : List Record :=
  session.opening ++ session.reports.flatMap Report.records

end Session

end Chip8
