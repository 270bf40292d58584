import Chip8.Player.Session
import Chip8.Proofs.Outcome
import Chip8.Proofs.Texture

/-!
# The stages of a session

A session reports what its passes did. To speak of the states in between, a stage takes a pass
together with the player before and after it; the stages of a session have its reports.

What one pass does to the console is listed once, in `pass_passed`: the screen is marked as shown,
keys go down and come up, and then one cycle is run or taken back unless the player quits. If the
canvas refuses the screen, nothing happens at all. What a pass keeps, all stages keep:
`Session.stages_keep` is the induction behind every invariant of the player.
-/

namespace Chip8

/-- A pass, with the player before and after it. -/
structure Stage where
  before : Player
  input : Pass
  after : Player
  report : Report

/-- The events of a pass that the player hears: none after a quit. -/
def Pass.heard (input : Pass) : List Event :=
  input.events.takeWhile (· ≠ .quit)

/-- The events that were heard in a stage, if its pass came to them. -/
def Stage.heard (stage : Stage) : List Event :=
  if stage.report.activity.hears then stage.input.heard else []

theorem Activity.hears_of_goesOn {activity : Activity} (on : activity.goesOn) : activity.hears := by
  cases activity with
  | unshown => cases on
  | _ => rfl

namespace Console

/-- A console with its screen shown has nothing more to show, and is otherwise as before. -/
theorem markShown_of_shown (c : Console) (shown : c.machine.redraw = false) : c.markShown = c := by
  obtain ⟨machine, history⟩ := c
  obtain ⟨_, _, _, _, _, _, _, _, _, redraw, _, _⟩ := machine
  cases shown
  rfl

end Console

namespace Player

def stage (player : Player) (cycle : Nat) (input : Pass) : Stage where
  before := player
  input := input
  after := (player.pass cycle input).1
  report := (player.pass cycle input).2

/-- The passes up to and including the first that is the last. -/
def stages (player : Player) (cycle : Nat) : List Pass → List Stage
  | [] => []
  | input :: rest =>
    let stage := player.stage cycle input
    stage :: if stage.report.activity.goesOn then stage.after.stages cycle rest else []

/-- The player after the events of a pass. -/
def listen (player : Player) (input : Pass) : Heard :=
  (player.present.wait input.advance).hear input.events

/-! ### What a pass does to the console -/

theorem present_console (player : Player) : player.present.console = player.console.markShown := by
  unfold present Console.frame?
  cases due : player.console.machine.redraw with
  | false => simp [player.console.markShown_of_shown due]
  | true => simp

/-- Why a pass does not show its frame, if one is due and is refused. -/
def unshown? (player : Player) (input : Pass) : Option String :=
  if player.console.machine.redraw then input.canvas.refusal? else none

theorem render_eq_error_iff (player : Player) (input : Pass) (reason : String) :
    player.render input.canvas = .error reason ↔ player.unshown? input = some reason := by
  unfold render unshown? Console.frame?
  cases due : player.console.machine.redraw with
  | false => simp
  | true =>
    have refused :=
      input.canvas.render_eq_error_iff player.console.machine.screen.picture reason
    rw [if_pos rfl, if_pos rfl, ← refused]
    cases shown : input.canvas.render player.console.machine.screen.picture <;>
      simp [shown, Except.map]

/-- What comes on show is the picture of the screen. -/
theorem image_of_render {player : Player} {canvas : Canvas} {frame : Option Texture}
    (shown : player.render canvas = .ok frame) :
    frame.map Texture.image = player.console.frame?.map Screen.picture := by
  unfold render at shown
  cases due : player.console.frame? with
  | none =>
    rw [due] at shown
    cases shown
    rfl
  | some screen =>
    simp only [due] at shown
    cases taken : canvas.render screen.picture with
    | error reason => simp [taken, Except.map] at shown
    | ok texture =>
      rw [taken] at shown
      cases shown
      exact congrArg some (Canvas.image_of_render taken)

/-- A frame once the start of a pass is over: it was not refused, and if the screen was due, it
shows the picture of it. -/
structure Renders (player : Player) (input : Pass) (frame : Option Texture) : Prop where
  taken : player.unshown? input = none
  image : frame.map Texture.image = player.console.frame?.map Screen.picture

theorem renders_of_render {player : Player} {input : Pass} {frame : Option Texture}
    (shown : player.render input.canvas = .ok frame) : player.Renders input frame := by
  refine ⟨?_, image_of_render shown⟩
  cases unshown : player.unshown? input with
  | none => rfl
  | some reason =>
    rw [(player.render_eq_error_iff input reason).mpr unshown] at shown
    cases shown

/-- All that a pass can come to: its frame is refused, a quit is heard, a cycle goes by with the
buzzer and a pause after it, or a cycle goes by that is the last. -/
inductive Comes (player : Player) (cycle : Nat) (input : Pass) : Player × Report → Prop
  | unshown {reason : String} (refused : player.unshown? input = some reason) :
      Comes player cycle input (player, ⟨none, .unshown reason, 0, 0, []⟩)
  | quit {frame : Option Texture} (renders : player.Renders input frame)
      (quits : (player.listen input).quits = true) :
      Comes player cycle input
        ((player.listen input).player, ⟨frame, .quit, 0, 0, (player.listen input).records⟩)
  | goesOn {frame : Option Texture} {turned : Player} {activity : Activity} {ticks : Nat}
      {told : List Record} (renders : player.Renders input frame)
      (stays : (player.listen input).quits = false)
      (turn : (player.listen input).player.turn = (turned, activity, ticks, told))
      (on : activity.goesOn = true) :
      Comes player cycle input
        (turned.buzz.1.rest cycle, ⟨frame, activity, ticks, turned.buzz.1.pause cycle,
          (player.listen input).records ++ told ++ turned.buzz.2⟩)
  | ends {frame : Option Texture} {turned : Player} {activity : Activity} {ticks : Nat}
      {told : List Record} (renders : player.Renders input frame)
      (stays : (player.listen input).quits = false)
      (turn : (player.listen input).player.turn = (turned, activity, ticks, told))
      (off : activity.goesOn = false) :
      Comes player cycle input
        (turned, ⟨frame, activity, 0, 0, (player.listen input).records ++ told⟩)

theorem proceed_comes (player : Player) (cycle : Nat) {input : Pass} {frame : Option Texture}
    (renders : player.Renders input frame) :
    player.Comes cycle input (player.proceed cycle input frame) := by
  change player.Comes cycle input
    (let heard := player.listen input
     let turn := heard.player.turn
     if heard.quits then (heard.player, ⟨frame, .quit, 0, 0, heard.records⟩)
     else if turn.2.1.goesOn then
       (turn.1.buzz.1.rest cycle, ⟨frame, turn.2.1, turn.2.2.1, turn.1.buzz.1.pause cycle,
         heard.records ++ turn.2.2.2 ++ turn.1.buzz.2⟩)
     else (turn.1, ⟨frame, turn.2.1, 0, 0, heard.records ++ turn.2.2.2⟩))
  dsimp only
  split
  next quits => exact .quit renders quits
  next stays =>
    rw [Bool.not_eq_true] at stays
    split
    next on => exact .goesOn renders stays rfl on
    next ends => exact .ends renders stays rfl (Bool.eq_false_of_not_eq_true ends)

theorem pass_comes (player : Player) (cycle : Nat) (input : Pass) :
    player.Comes cycle input (player.pass cycle input) := by
  unfold pass
  cases shown : player.render input.canvas with
  | error reason => exact .unshown ((player.render_eq_error_iff input reason).mp shown)
  | ok frame => exact player.proceed_comes cycle (renders_of_render shown)

theorem buzz_console (player : Player) : player.buzz.1.console = player.console := by
  unfold buzz
  split <;> rfl

theorem key_console (player : Player) (code : Keycode) (isDown : Bool) :
    (player.key code isDown).1.console =
      match Keypad.key? code with
      | some digit =>
        (if isDown then player.console.press digit else player.console.release digit).console
      | none => player.console := by
  unfold key
  cases Keypad.key? code with
  | some digit => rfl
  | none =>
    dsimp only
    split
    · rfl
    · split <;> rfl

/-- The key that sets the pace does nothing else. -/
theorem key_space (player : Player) (isDown : Bool) :
    player.key Keycode.space isDown = ({ player with fastForward := isDown }, []) := by
  have free : Keypad.key? Keycode.space = none := by decide
  simp [key, free]

/-- What every key keeps, a list of events keeps. -/
theorem hear_keeps (kept : Console → Prop)
    (press : ∀ c key, kept c → kept (c.press key).console)
    (release : ∀ c key, kept c → kept (c.release key).console)
    (player : Player) (events : List Event) (start : kept player.console) :
    kept (player.hear events).player.console := by
  induction events generalizing player with
  | nil => exact start
  | cons event rest ih =>
    cases event with
    | quit => exact start
    | other => exact ih player start
    | key code isDown =>
      refine ih (player.key code isDown).1 ?_
      rw [key_console]
      cases Keypad.key? code with
      | none => exact start
      | some digit =>
        cases isDown with
        | true => exact press _ digit start
        | false => exact release _ digit start

/-- What a cycle of the player does to its console. -/
inductive Turned (player : Player) : Activity → Console → Prop
  | steppedBack {latest : Machine} {older : List Machine}
      (history : player.console.history = latest :: older) :
      Turned player .steppedBack ⟨{ latest with redraw := true }, older⟩
  | atBeginning (history : player.console.history = []) :
      Turned player .atBeginning player.console
  | failed (fault : Fault) : Turned player (.failed fault) player.console
  | waited (ticks : Nat) : Turned player .waited (player.console.tick ticks)
  | executed {instruction : Instruction} {after : Machine} (ticks : Nat)
      (stepped : player.console.machine.step player.dice.top = .ok (some (instruction, after))) :
      Turned player (.executed instruction) ((player.console.advance after).tick ticks)

theorem turn_turned (player : Player) : player.Turned player.turn.2.1 player.turn.1.console := by
  unfold turn
  split
  next backwards =>
    have rewound : player.stepBack.console = player.console.rewind := rfl
    split
    next empty =>
      rw [rewound, Console.rewind, empty]
      exact .atBeginning empty
    next latest older found =>
      rw [rewound, Console.rewind, found]
      exact .steppedBack found
  next forwards =>
    simp only [stepOn, Console.step]
    cases stepped : player.console.machine.step player.dice.top with
    | error fault => exact .failed fault
    | ok result =>
      rcases result with _ | ⟨instruction, after⟩
      · exact .waited _
      · exact .executed _ stepped

/-- Once a cycle is run, the events have been heard. -/
theorem hears_of_turn {player turned : Player} {activity : Activity} {ticks : Nat}
    {told : List Record} (turn : player.turn = (turned, activity, ticks, told)) :
    activity.hears := by
  have did := player.turn_turned
  rw [turn] at did
  generalize turned.console = console at did
  cases did <;> rfl

/-- What a pass does to the console. -/
inductive Passed (player : Player) (input : Pass) : Activity → Console → Prop
  | unshown {reason : String} (refused : player.unshown? input = some reason) :
      Passed player input (.unshown reason) player.console
  | quit (quits : (player.listen input).quits = true) :
      Passed player input .quit (player.listen input).player.console
  | turned {activity : Activity} {console : Console}
      (turned : (player.listen input).player.Turned activity console) :
      Passed player input activity console

theorem pass_passed (player : Player) (cycle : Nat) (input : Pass) :
    player.Passed input (player.pass cycle input).2.activity
      (player.pass cycle input).1.console := by
  have comes := player.pass_comes cycle input
  have turned := (player.listen input).player.turn_turned
  generalize player.pass cycle input = done at comes ⊢
  cases comes with
  | unshown refused => exact .unshown refused
  | quit renders quits => exact .quit quits
  | goesOn renders stays turn on =>
    -- Neither the buzzer nor the pause touches the console.
    rw [turn] at turned
    refine .turned ?_
    simp only [rest, wait, buzz_console]
    exact turned
  | ends renders stays turn off =>
    rw [turn] at turned
    exact .turned turned

/-- A pass ends at its frame if and only if the frame is refused. -/
theorem pass_unshown_iff (player : Player) (cycle : Nat) (input : Pass) (reason : String) :
    (player.pass cycle input).2.activity = .unshown reason ↔
      player.unshown? input = some reason := by
  constructor
  · intro unshown
    have passed := player.pass_passed cycle input
    rw [unshown] at passed
    generalize (player.pass cycle input).1.console = after at passed
    cases passed with
    | unshown refused => exact refused
    | turned turned => cases turned
  · intro refused
    unfold pass
    rw [(player.render_eq_error_iff input reason).mpr refused]

/-- A pass shows the screen if that is due and is not refused. -/
theorem pass_image (player : Player) (cycle : Nat) (input : Pass) :
    (player.pass cycle input).2.frame.map Texture.image =
      if player.unshown? input = none then player.console.frame?.map Screen.picture else none := by
  have comes := player.pass_comes cycle input
  generalize player.pass cycle input = done at comes ⊢
  cases comes with
  | unshown refused =>
    rw [refused]
    rfl
  | quit renders | goesOn renders | ends renders =>
    rw [if_pos renders.taken]
    exact renders.image

theorem pass_hears (player : Player) (cycle : Nat) (input : Pass) :
    (player.pass cycle input).2.activity.hears = (player.unshown? input).isNone := by
  have comes := player.pass_comes cycle input
  generalize player.pass cycle input = done at comes ⊢
  cases comes with
  | unshown refused =>
    rw [refused]
    rfl
  | quit renders quits =>
    rw [renders.taken]
    rfl
  | goesOn renders stays turn | ends renders stays turn =>
    rw [renders.taken]
    exact hears_of_turn turn

/-- A pass that does not come to its events leaves everything as it was. -/
theorem pass_of_not_hears {player : Player} {cycle : Nat} {input : Pass}
    (deaf : (player.pass cycle input).2.activity.hears = false) :
    ∃ reason, player.pass cycle input = (player, ⟨none, .unshown reason, 0, 0, []⟩) := by
  have comes := player.pass_comes cycle input
  generalize player.pass cycle input = done at comes deaf ⊢
  cases comes with
  | unshown refused => exact ⟨_, rfl⟩
  | quit => cases deaf
  | goesOn renders stays turn | ends renders stays turn =>
    rw [hears_of_turn turn] at deaf
    cases deaf

/-! ### All passes -/

theorem report_stages (player : Player) (cycle : Nat) (script : List Pass) :
    (player.stages cycle script).map Stage.report = (player.play cycle script).2 := by
  induction script generalizing player with
  | nil => rfl
  | cons input rest ih =>
    rw [stages, play, List.map_cons]
    cases on : (player.pass cycle input).2.activity.goesOn with
    | true => simp [stage, on, ih]
    | false => simp [stage, on]

/-- The player at the end is that of the last stage, whatever is looked at. -/
theorem view_play {α : Type} (view : Player → α) (player : Player) (cycle : Nat)
    (script : List Pass) :
    view (player.play cycle script).1 =
      (((player.stages cycle script).map fun stage => view stage.after).getLast?).getD
        (view player) := by
  induction script generalizing player with
  | nil => rfl
  | cons input rest ih =>
    rw [stages, play]
    dsimp only
    cases on : (player.pass cycle input).2.activity.goesOn with
    | true =>
      simp only [stage, on, if_true, ih, List.map_cons, List.getLast?_cons]
      rfl
    | false => simp [stage, on]

/-- The dice at the end are those of the last stage. -/
theorem dice_play (player : Player) (cycle : Nat) (script : List Pass) :
    (player.play cycle script).1.dice =
      (((player.stages cycle script).map fun stage => stage.after.dice).getLast?).getD
        player.dice :=
  view_play Player.dice player cycle script

/-- Stages take the passes of the script in order. -/
theorem input_stage {player : Player} {cycle : Nat} {script : List Pass} {place : Nat}
    {stage : Stage} (found : (player.stages cycle script)[place]? = some stage) :
    script[place]? = some stage.input := by
  induction script generalizing player place with
  | nil => cases found
  | cons input rest ih =>
    cases place with
    | zero =>
      cases found
      rfl
    | succ place =>
      simp only [stages, List.getElem?_cons_succ] at found ⊢
      split at found
      next on => exact ih found
      next ends => cases found

/-- A stage that has another one after it goes on. -/
theorem goesOn_of_mem_take {player : Player} {cycle : Nat} {script : List Pass} {place : Nat}
    {stage : Stage} (found : (player.stages cycle script)[place]? = some stage) :
    ∀ earlier ∈ (player.stages cycle script).take place, earlier.report.activity.goesOn := by
  induction script generalizing player place with
  | nil => cases found
  | cons input rest ih =>
    cases place with
    | zero => simp
    | succ place =>
      simp only [stages, List.getElem?_cons_succ] at found ⊢
      split at found
      next on =>
        intro earlier member
        rw [if_pos on, List.take_succ_cons, List.mem_cons] at member
        rcases member with rfl | later
        · exact on
        · exact ih found earlier later
      next ends => cases found

/-- What holds at the start and is kept by every pass that goes on holds at every stage. -/
theorem stages_keep {cycle : Nat} (inv : List Stage → Player → Prop)
    (step : ∀ past player input, (player.stage cycle input).report.activity.goesOn →
      inv past player → inv (past ++ [player.stage cycle input]) (player.stage cycle input).after)
    {player : Player} {past : List Stage} (start : inv past player) (script : List Pass)
    {place : Nat} {stage : Stage} (found : (player.stages cycle script)[place]? = some stage) :
    inv (past ++ (player.stages cycle script).take place) stage.before ∧
      stage = stage.before.stage cycle stage.input := by
  induction script generalizing player past place with
  | nil => cases found
  | cons input rest ih =>
    cases place with
    | zero =>
      cases found
      simpa using ⟨start, rfl⟩
    | succ place =>
      simp only [stages, List.getElem?_cons_succ] at found ⊢
      split at found
      next on =>
        -- Later stages are those of the player after the first, which is then part of the past.
        simpa [on] using ih (step past player input on start) found
      next => cases found

/-- The quit is heard unless the session has ended before it. -/
theorem pass_last (player : Player) (cycle : Nat) :
    (player.pass cycle Pass.last).2.activity.goesOn = false := by
  have comes := player.pass_comes cycle Pass.last
  have quits : (player.listen Pass.last).quits = true := rfl
  generalize player.pass cycle Pass.last = done at comes ⊢
  cases comes with
  | unshown | quit => rfl
  | goesOn renders stays | ends renders stays =>
    rw [quits] at stays
    cases stays

/-- A stage that goes on is not the last one, if the script ends in a quit. -/
theorem next_stage {player : Player} {cycle : Nat} {script : List Pass} {place : Nat}
    {stage : Stage}
    (found : (player.stages cycle (script ++ [Pass.last]))[place]? = some stage)
    (on : stage.report.activity.goesOn) :
    ∃ next, (player.stages cycle (script ++ [Pass.last]))[place + 1]? = some next := by
  induction script generalizing player place with
  | nil =>
    -- Nothing but the quit is left, and no stage that hears it goes on.
    have ends : (player.stage cycle Pass.last).report.activity.goesOn = false :=
      player.pass_last cycle
    rw [List.nil_append, stages, ends] at found
    cases place with
    | zero =>
      cases found
      rw [ends] at on
      cases on
    | succ place => cases found
  | cons input rest ih =>
    simp only [List.cons_append, stages] at found ⊢
    cases place with
    | zero =>
      cases found
      rw [List.getElem?_cons_succ, if_pos on]
      cases rest with
      | nil => exact ⟨_, rfl⟩
      | cons second others => exact ⟨_, rfl⟩
    | succ place =>
      rw [List.getElem?_cons_succ] at found ⊢
      split at found
      next first =>
        rw [if_pos first]
        exact ih found
      next ends => cases found

end Player

namespace Session

/-- The player of the first pass, if the settings lead to one. -/
def start? (settings : Settings) (host : Host) (dice : Dice) : Option Player :=
  match launch settings host dice with
  | .error _ => none
  | .ok (player, _) => some player

def stagesOf (settings : Settings) (host : Host) (dice : Dice) (script : List Pass) :
    List Stage :=
  match start? settings host dice with
  | none => []
  | some player => player.stages settings.cycle (script ++ [Pass.last])

/-- The stages of a session; there are none if it ends before its first pass. -/
def stages (arguments : List String) (host : Host) (dice : Dice) (script : List Pass) :
    List Stage :=
  match Settings.ofArguments arguments with
  | .error _ => []
  | .ok settings => stagesOf settings host dice script

theorem ofSettings_reports (settings : Settings) (host : Host) (dice : Dice)
    (script : List Pass) :
    (ofSettings settings host dice script).reports =
      match start? settings host dice with
      | none => []
      | some player => (player.play settings.cycle (script ++ [Pass.last])).2 := by
  unfold ofSettings start?
  cases launch settings host dice with
  | error refusal => rfl
  | ok launched => rfl

/-- The stages have the reports of the session. -/
theorem stages_report (arguments : List String) (host : Host) (dice : Dice)
    (script : List Pass) :
    (stages arguments host dice script).map Stage.report =
      (ofArguments arguments host dice script).reports := by
  unfold stages ofArguments
  cases Settings.ofArguments arguments with
  | error cause => rfl
  | ok settings =>
    dsimp only
    rw [ofSettings_reports, stagesOf]
    cases start? settings host dice with
    | none => rfl
    | some player => exact player.report_stages settings.cycle _

/-- Loading a rom changes nothing but memory. -/
theorem prepare_eq_ok {settings : Settings} {found : Opening} {dice : Dice} {player : Player}
    {records : List Record} (prepared : prepare settings found dice = .ok (player, records)) :
    ∃ memory, player = Player.start ⟨{ Machine.initial with memory }, []⟩ dice := by
  unfold prepare at prepared
  split at prepared
  next => cases prepared
  next =>
    simp only [Console.load] at prepared
    cases loaded : Rom.read found.pieces with
    | error cause => simp [loaded] at prepared
    | ok bytes =>
      simp only [loaded, Except.ok.injEq, Prod.mk.injEq] at prepared
      exact ⟨_, prepared.1.symm⟩

theorem mapError_eq_ok_iff {ε δ α : Type} {found : Except ε α} {other : ε → δ} {value : α} :
    found.mapError other = .ok value ↔ found = .ok value := by
  cases found <;> simp [Except.mapError]

/-- A session that begins has read its rom. -/
theorem launch_eq_ok {settings : Settings} {host : Host} {dice : Dice} {player : Player}
    {records : List Record} (launched : launch settings host dice = .ok (player, records)) :
    prepare settings (host.opens settings.rom) dice = .ok (player, records) := by
  unfold launch at launched
  -- Neither the window nor the events have a part in the player.
  obtain ⟨_, -, raised⟩ := (bind_eq_ok_iff ..).mp launched
  obtain ⟨_, -, attended⟩ := (bind_eq_ok_iff ..).mp raised
  exact mapError_eq_ok_iff.mp attended

/-- The first pass begins with a machine that is switched on, but for the rom in its memory. -/
theorem start?_eq_some {settings : Settings} {host : Host} {dice : Dice} {player : Player}
    (started : start? settings host dice = some player) :
    ∃ memory, player = Player.start ⟨{ Machine.initial with memory }, []⟩ dice := by
  unfold start? at started
  split at started
  next => cases started
  next first records launched =>
    cases started
    exact prepare_eq_ok (launch_eq_ok launched)

/-- What holds at the start and is kept by every pass that goes on holds at every stage. -/
theorem stages_keep (inv : List Stage → Player → Prop) {dice : Dice}
    (begin : ∀ memory, inv [] (Player.start ⟨{ Machine.initial with memory }, []⟩ dice))
    (step : ∀ cycle past player input, (player.stage cycle input).report.activity.goesOn →
      inv past player → inv (past ++ [player.stage cycle input]) (player.stage cycle input).after)
    {arguments : List String} {host : Host} {script : List Pass} {place : Nat} {stage : Stage}
    (found : (stages arguments host dice script)[place]? = some stage) :
    inv ((stages arguments host dice script).take place) stage.before ∧
      ∃ cycle, stage = stage.before.stage cycle stage.input := by
  unfold stages at found ⊢
  cases accepted : Settings.ofArguments arguments with
  | error cause => simp [accepted] at found
  | ok settings =>
    simp only [accepted, stagesOf] at found ⊢
    cases started : start? settings host dice with
    | none => simp [started] at found
    | some player =>
      simp only [started] at found ⊢
      obtain ⟨memory, rfl⟩ := start?_eq_some started
      obtain ⟨holds, same⟩ := Player.stages_keep inv (step settings.cycle) (begin memory) _ found
      exact ⟨by simpa using holds, settings.cycle, same⟩

/-- A session that has a stage is that of a player. -/
theorem exists_player {arguments : List String} {host : Host} {dice : Dice} {script : List Pass}
    {place : Nat} {stage : Stage}
    (found : (stages arguments host dice script)[place]? = some stage) :
    ∃ (player : Player) (cycle : Nat),
      stages arguments host dice script = player.stages cycle (script ++ [Pass.last]) := by
  unfold stages at found ⊢
  split at found
  next => cases found
  next settings accepted =>
    unfold stagesOf at found ⊢
    split at found
    next => cases found
    next player started => exact ⟨player, settings.cycle, rfl⟩

theorem next_stage {arguments : List String} {host : Host} {dice : Dice} {script : List Pass}
    {place : Nat} {stage : Stage}
    (found : (stages arguments host dice script)[place]? = some stage)
    (on : stage.report.activity.goesOn) :
    ∃ next, (stages arguments host dice script)[place + 1]? = some next := by
  obtain ⟨player, cycle, same⟩ := exists_player found
  rw [same] at found ⊢
  exact Player.next_stage found on

theorem input_stage {arguments : List String} {host : Host} {dice : Dice} {script : List Pass}
    {place : Nat} {stage : Stage}
    (found : (stages arguments host dice script)[place]? = some stage) :
    (script ++ [Pass.last])[place]? = some stage.input := by
  obtain ⟨player, cycle, same⟩ := exists_player found
  rw [same] at found
  exact Player.input_stage found

theorem goesOn_of_mem_take {arguments : List String} {host : Host} {dice : Dice}
    {script : List Pass} {place : Nat} {stage : Stage}
    (found : (stages arguments host dice script)[place]? = some stage) :
    ∀ earlier ∈ (stages arguments host dice script).take place,
      earlier.report.activity.goesOn := by
  obtain ⟨player, cycle, same⟩ := exists_player found
  rw [same] at found ⊢
  exact Player.goesOn_of_mem_take found

end Session

end Chip8
