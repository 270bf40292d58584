import Chip8.Proofs.Player.Stages

/-!
# The picture on show

A frame is shown at the start of a pass if the machine asks for one, and is no longer asked for
then. Whatever changes the screen asks for a frame: an instruction that draws, and taking a state
back, since the screen of that state may be any. Nothing else does, so no frame is shown in vain.
What is on show is the texture into which the frame was copied.

## Main result

`frames_follow_screen`: once a pass has shown what there is to show, the picture on show is that of
the screen. A frame is shown in the pass after one that drew or took a state back, and in no other;
if the canvas refuses it, the session ends.
-/

namespace Chip8

/-- Whether an activity leaves a screen to be shown. -/
def Activity.shows : Activity → Bool
  | .executed instruction => instruction.draws
  | .steppedBack => true
  | _ => false

theorem Activity.goesOn_of_shows {activity : Activity} (shows : activity.shows) :
    activity.goesOn := by
  cases activity with
  | quit | failed | unshown => cases shows
  | _ => rfl

/-- Whether a pass can show a frame. -/
def Pass.takes (input : Pass) : Bool :=
  input.canvas.refusal?.isNone

/-- The picture on show after some passes: that of the latest texture, and black before the first.
-/
def Picture.onShow (reports : List Report) : Picture :=
  ((reports.filterMap Report.frame).getLast?.map Texture.image).getD Picture.black

theorem Picture.onShow_concat (reports : List Report) (report : Report) :
    onShow (reports ++ [report]) = (report.frame.map Texture.image).getD (onShow reports) := by
  unfold onShow
  rw [List.filterMap_append]
  cases frame : report.frame <;> simp [frame]

/-! ### Frames and their numbers -/

namespace Session

/-- The frames of some passes, the first of which is numbered `start`. -/
def numbered (start : Nat) (reports : List Report) : List (Nat × Picture) :=
  (reports.zipIdx start).filterMap fun (report, ended) =>
    report.frame.map fun texture => (ended, texture.image)

theorem numbered_cons (start : Nat) (report : Report) (rest : List Report) :
    numbered start (report :: rest) =
      (report.frame.map fun texture => (start, texture.image)).toList ++
        numbered (start + 1) rest := by
  cases frame : report.frame <;> simp [numbered, frame]

theorem start_le_of_mem_numbered {start : Nat} {reports : List Report} {frame : Nat × Picture}
    (member : frame ∈ numbered start reports) : start ≤ frame.1 := by
  obtain ⟨⟨report, ended⟩, inside, same⟩ := List.mem_filterMap.mp member
  obtain ⟨texture, -, rfl⟩ := Option.map_eq_some_iff.mp same
  exact List.le_snd_of_mem_zipIdx inside

/-- The frame with a number is that of the report in its place. -/
theorem filter_numbered_eq (start : Nat) (reports : List Report) (place : Nat) :
    (numbered start reports).filter (·.1 = start + place) =
      ((reports[place]?.bind Report.frame).map
        fun texture => (start + place, texture.image)).toList := by
  induction reports generalizing start place with
  | nil => rfl
  | cons report rest ih =>
    rw [numbered_cons, List.filter_append]
    cases place with
    | zero =>
      -- The later frames have greater numbers.
      have later : (numbered (start + 1) rest).filter (·.1 = start + 0) = [] := by
        rw [List.filter_eq_nil_iff]
        intro frame member
        have := start_le_of_mem_numbered member
        simp only [decide_eq_true_eq]
        omega
      rw [later]
      cases frame : report.frame <;> simp [frame]
    | succ place =>
      have shifted : start + (place + 1) = start + 1 + place := by omega
      have apart : start ≠ start + 1 + place := by omega
      rw [shifted, ih (start + 1) place]
      cases report.frame <;> simp [apart]

/-- The frames with numbers up to a place are those of the reports up to it. -/
theorem filter_numbered_le (start : Nat) (reports : List Report) (place : Nat) :
    ((numbered start reports).filter (·.1 ≤ start + place)).map Prod.snd =
      ((reports.take (place + 1)).filterMap Report.frame).map Texture.image := by
  induction reports generalizing start place with
  | nil => rfl
  | cons report rest ih =>
    rw [numbered_cons, List.filter_append, List.map_append, List.take_succ_cons]
    cases place with
    | zero =>
      have later : (numbered (start + 1) rest).filter (·.1 ≤ start + 0) = [] := by
        rw [List.filter_eq_nil_iff]
        intro frame member
        have := start_le_of_mem_numbered member
        simp only [decide_eq_true_eq]
        omega
      rw [later]
      cases frame : report.frame <;> simp [frame]
    | succ place =>
      have shifted : start + (place + 1) = start + 1 + place := by omega
      have below : start ≤ start + 1 + place := by omega
      rw [shifted, ih (start + 1) place]
      cases frame : report.frame <;> simp [frame, below]

/-- The picture on show once a number of passes have ended and the next has begun. -/
def onShow (session : Session) (ended : Nat) : Picture :=
  ((session.frames.filter (·.1 ≤ ended)).getLast?.map Prod.snd).getD Picture.black

theorem onShow_eq (session : Session) (ended : Nat) :
    session.onShow ended = Picture.onShow (session.reports.take (ended + 1)) := by
  have frames := filter_numbered_le 0 session.reports ended
  rw [Nat.zero_add] at frames
  rw [Picture.onShow, ← List.getLast?_map, ← frames, List.getLast?_map]
  rfl

end Session

/-! ### What is on show and what is due -/

/-- The screen of a machine that has no frame to show. -/
def Machine.Rests (screen : Screen) (m : Machine) : Prop :=
  m.redraw = false ∧ m.screen = screen

theorem Machine.Rests.press {screen : Screen} {m : Machine} (rests : m.Rests screen) (key : UInt8) :
    (m.press key).1.Rests screen := by
  obtain ⟨registers, pressed, awaiting, same, -⟩ := m.press_changes key
  rw [same]
  exact rests

theorem Machine.Rests.release {screen : Screen} {m : Machine} (rests : m.Rests screen)
    (key : UInt8) : (m.release key).1.Rests screen := by
  obtain ⟨pressed, same⟩ := m.release_changes key
  rw [same]
  exact rests

/-- After the start of a pass nothing is due, and keys do not change that. -/
theorem Player.listen_rests (player : Player) (input : Pass) :
    (player.listen input).player.console.machine.Rests player.console.machine.screen := by
  refine hear_keeps (fun c => c.machine.Rests player.console.machine.screen) ?_ ?_ _ input.events ?_
  · intro c key rests
    exact rests.press key
  · intro c key rests
    exact rests.release key
  · change player.present.console.machine.Rests _
    rw [present_console]
    exact ⟨rfl, rfl⟩

/-- A pass that comes to its events leaves a screen to be shown if its activity says so, and
otherwise leaves the screen. -/
theorem Player.Passed.screen {player : Player} {input : Pass} {activity : Activity}
    {console : Console} (passed : player.Passed input activity console) (hears : activity.hears) :
    console.machine.redraw = activity.shows ∧
      (activity.shows = false → console.machine.screen = player.console.machine.screen) := by
  obtain ⟨idle, same⟩ := player.listen_rests input
  cases passed with
  | unshown refused => cases hears
  | quit quits => exact ⟨idle, fun _ => same⟩
  | turned turned =>
    cases turned with
    | steppedBack history => exact ⟨rfl, nofun⟩
    | atBeginning history => exact ⟨idle, fun _ => same⟩
    | failed fault => exact ⟨idle, fun _ => same⟩
    | waited ticks => exact ⟨idle, fun _ => same⟩
    | executed ticks stepped =>
      -- An instruction asks for a frame exactly if it draws, and the timers do not matter.
      cases Machine.eq_outcome_of_step stepped
      simp only [Console.tick, Console.edit, Console.advance, Machine.tick, Machine.resume_redraw,
        Machine.resume_screen, Machine.outcome, idle, Bool.or_false]
      refine ⟨rfl, fun still => ?_⟩
      rw [Machine.screenAfter_of_not_draws _ still]
      exact same

/-- A pass shows a frame if one is due and can be shown. -/
theorem Player.pass_frame_isSome (player : Player) (cycle : Nat) (input : Pass) :
    (player.pass cycle input).2.frame.isSome =
      (player.console.machine.redraw && input.takes) := by
  have image := congrArg Option.isSome (player.pass_image cycle input)
  rw [Option.isSome_map] at image
  rw [image]
  unfold unshown? Pass.takes Console.frame?
  cases player.console.machine.redraw with
  | false => rfl
  | true => cases input.canvas.refusal? <;> rfl

/-- What is known of a player after some stages: a frame is due if the last of them left one to be
shown, and otherwise the screen is on show. -/
structure Presented (past : List Stage) (player : Player) : Prop where
  due : player.console.machine.redraw = past.getLast?.any (·.report.activity.shows)
  shown : player.console.machine.redraw = false →
    Picture.onShow (past.map Stage.report) = player.console.machine.screen.picture

/-- The start of a pass shows the screen if it is not on show already. -/
theorem Presented.onShow {past : List Stage} {player : Player} (presented : Presented past player)
    {cycle : Nat} {input : Pass} (hears : (player.stage cycle input).report.activity.hears) :
    Picture.onShow ((past ++ [player.stage cycle input]).map Stage.report) =
      player.console.machine.screen.picture := by
  have image : (player.stage cycle input).report.frame.map Texture.image = _ :=
    player.pass_image cycle input
  have taken : player.unshown? input = none := by
    rw [← Option.isNone_iff_eq_none, ← player.pass_hears cycle input]
    exact hears
  rw [if_pos taken] at image
  rw [List.map_append, List.map_singleton, Picture.onShow_concat, image, Console.frame?]
  cases due : player.console.machine.redraw with
  | true => rfl
  | false => exact presented.shown due

theorem Presented.frame {past : List Stage} {player : Player} (presented : Presented past player)
    (cycle : Nat) (input : Pass) :
    (player.stage cycle input).report.frame.isSome =
      (past.getLast?.any (·.report.activity.shows) && input.takes) := by
  rw [← presented.due]
  exact player.pass_frame_isSome cycle input

/-- A pass ends at its frame if one was left to be shown and the canvas refuses it. -/
theorem Presented.unshown_iff {past : List Stage} {player : Player}
    (presented : Presented past player) (cycle : Nat) (input : Pass) (reason : String) :
    (player.stage cycle input).report.activity = .unshown reason ↔
      past.getLast?.any (·.report.activity.shows) ∧ input.canvas.refusal? = some reason := by
  rw [← presented.due]
  refine (player.pass_unshown_iff cycle input reason).trans ?_
  unfold Player.unshown?
  cases player.console.machine.redraw <;> simp

theorem Presented.pass {past : List Stage} {player : Player} (presented : Presented past player)
    {cycle : Nat} {input : Pass} (hears : (player.stage cycle input).report.activity.hears) :
    Presented (past ++ [player.stage cycle input]) (player.stage cycle input).after := by
  obtain ⟨due, same⟩ := (player.pass_passed cycle input).screen hears
  constructor
  · rw [List.getLast?_concat]
    exact due
  · intro idle
    have unshown : (player.stage cycle input).report.activity.shows = false := due.symm.trans idle
    rw [presented.onShow hears]
    exact congrArg Screen.picture (same unshown).symm

theorem Screen.picture_blank : Screen.blank.picture = Picture.black := by
  ext place inside
  simp [Screen.picture, Screen.blank, Picture.black, Cells.get_eq_getElem]

theorem Presented.start (dice : Dice) (memory : Memory) :
    Presented [] (Player.start ⟨{ Machine.initial with memory }, []⟩ dice) := by
  refine ⟨rfl, fun _ => ?_⟩
  exact Screen.picture_blank.symm

namespace Session

theorem frames_filter (session : Session) (place : Nat) :
    session.frames.filter (·.1 = place) =
      ((session.reports[place]?.bind Report.frame).map
        fun texture => (place, texture.image)).toList := by
  have numbered := filter_numbered_eq 0 session.reports place
  rw [Nat.zero_add] at numbered
  exact numbered

theorem presented {arguments : List String} {host : Host} {dice : Dice} {script : List Pass}
    {place : Nat} {stage : Stage}
    (found : (stages arguments host dice script)[place]? = some stage) :
    Presented ((stages arguments host dice script).take place) stage.before ∧
      ∃ cycle, stage = stage.before.stage cycle stage.input :=
  stages_keep Presented (Presented.start dice)
    (fun _ _ _ _ on held => held.pass (Activity.hears_of_goesOn on)) found

/-- How many frames a stage shows: one if the stage before it left a screen to be shown and the
canvas takes it. -/
theorem frames_of_next {arguments : List String} {host : Host} {dice : Dice} {script : List Pass}
    {place : Nat} {stage next : Stage}
    (found : (stages arguments host dice script)[place]? = some stage)
    (following : (stages arguments host dice script)[place + 1]? = some next) :
    next.report.frame.isSome = (stage.report.activity.shows && next.input.takes) := by
  obtain ⟨before, cycle, same⟩ := presented following
  have frame := before.frame cycle next.input
  rw [← same, List.take_add_one, found, Option.toList_some, List.getLast?_concat] at frame
  exact frame

/-- Once a pass has shown what there is to show, the picture on show is that of the screen. The
first pass shows nothing. Any other shows one frame if and only if the pass before it drew or took a
state back and the canvas takes the frame, and it is cut short if the canvas refuses. -/
theorem frames_follow_screen (arguments : List String) (host : Host) (dice : Dice)
    (script : List Pass) :
    let session := ofArguments arguments host dice script
    let stages := stages arguments host dice script
    stages.map Stage.report = session.reports ∧
      (∀ place stage, stages[place]? = some stage → stage.report.activity.hears →
        session.onShow place = stage.before.present.console.machine.screen.picture) ∧
      session.frames.filter (·.1 = 0) = [] ∧
      (∀ place stage, stages[place]? = some stage →
        (session.frames.filter (·.1 = place + 1)).length =
          if stage.report.activity.shows && (script ++ [Pass.last])[place + 1]?.all Pass.takes
          then 1 else 0) ∧
      ∀ place stage reason, stages[place]? = some stage →
        (stage.report.activity = .unshown reason ↔
          (stages.take place).getLast?.any (·.report.activity.shows) ∧
            stage.input.canvas.refusal? = some reason) := by
  intro session stages
  have reports : stages.map Stage.report = session.reports :=
    stages_report arguments host dice script
  refine ⟨reports, ?_, ?_, ?_, ?_⟩
  · intro place stage found hears
    obtain ⟨before, cycle, same⟩ := presented found
    have screen : stage.before.present.console.machine.screen =
        stage.before.console.machine.screen := by
      rw [Player.present_console]
      rfl
    rw [onShow_eq, ← reports, ← List.map_take, List.take_add_one, found, screen, same]
    exact before.onShow (same ▸ hears)
  · rw [frames_filter, ← reports, List.getElem?_map]
    cases found : stages[0]? with
    | none => rfl
    | some stage =>
      obtain ⟨before, cycle, same⟩ := presented found
      have frame := before.frame cycle stage.input
      rw [← same, List.take_zero] at frame
      simpa using frame
  · intro place stage found
    rw [frames_filter, ← reports, List.getElem?_map]
    cases following : stages[place + 1]? with
    | none =>
      -- Only a pass that ends the session has none after it.
      cases shows : stage.report.activity.shows with
      | false => rfl
      | true =>
        obtain ⟨next, another⟩ := next_stage found (Activity.goesOn_of_shows shows)
        rw [another] at following
        cases following
    | some next =>
      have frame := frames_of_next found following
      rw [input_stage following, Option.all_some, ← frame]
      cases shown : next.report.frame <;> simp [shown]
  · intro place stage reason found
    obtain ⟨before, cycle, same⟩ := presented found
    have refused := before.unshown_iff cycle stage.input reason
    rw [← same] at refused
    exact refused

/-- A program that blanks the screen and then idles is taken back to its start. Two frames are
shown, the second in a texture with long rows that held something else. The third is refused. -/
theorem frames_follow_screen_blanked :
    let host := Host.ofFile "roms/blank.ch8" [0x00, 0xE0, 0x12, 0x02]
    let worn : Texture := ⟨256, by decide, Vector.replicate _ 0xAA⟩
    let script : List Pass := [⟨0, [], .plain⟩, ⟨0, [], .plain⟩,
      ⟨0, [.key Keycode.escape true], .plain⟩, ⟨0, [], ⟨.ok worn, .ok ()⟩⟩,
      ⟨0, [], ⟨.ok worn, .error "lost"⟩⟩]
    let session := ofArguments ["roms/blank.ch8"] host (Dice.ofList []) script
    session.frames.map Prod.fst = [1, 3] ∧ session.failure = some (.unavailable "lost") ∧
      (session.frames.filter (·.1 = 3)).length = 1 ∧
      ∃ stage, (stages ["roms/blank.ch8"] host (Dice.ofList []) script)[3]? = some stage ∧
        session.onShow 3 = stage.before.present.console.machine.screen.picture := by
  intro host worn script session
  have facts : session.frames.map Prod.fst = [1, 3] ∧
      session.failure = some (.unavailable "lost") ∧
      (stages ["roms/blank.ch8"] host (Dice.ofList []) script)[2]?.map
        (·.report.activity.shows) = some true ∧
      (stages ["roms/blank.ch8"] host (Dice.ofList []) script)[3]?.map
        (·.report.activity.hears) = some true := by
    decide +kernel
  obtain ⟨numbers, lost, third, fourth⟩ := facts
  obtain ⟨drawing, place, shows⟩ := Option.map_eq_some_iff.mp third
  obtain ⟨stage, found, hears⟩ := Option.map_eq_some_iff.mp fourth
  obtain ⟨-, shown, -, counted, -⟩ :=
    frames_follow_screen ["roms/blank.ch8"] host (Dice.ofList []) script
  refine ⟨numbers, lost, ?_, stage, found, shown 3 stage found hears⟩
  rw [counted 2 drawing place, shows]
  rfl

end Session

end Chip8
