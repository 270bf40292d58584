import Chip8.Proofs.Player.Timing

/-!
# The clock and the program

A session depends on time: on the time that passes take, on the speed that is asked for and on the
key that lets cycles run without a pause. A program has one instruction to find out. Unless it
executes that instruction, it does the same at any speed, and so does everything that can be seen of
the session but its pauses and its buzzer.

## Main result

`clock_unseen`: two sessions of one rom that hear the same, but for what they hear about the pace,
give the same account of themselves if one of them never reads the delay.
-/

namespace Chip8

/-- What a session is about, apart from its speed. -/
def Settings.game (settings : Settings) : String × Nat :=
  (settings.rom, settings.scale)

namespace Session

/-- No pass executes the instruction that reads the delay. -/
def Blind (session : Session) : Prop :=
  ∀ report ∈ session.reports, ∀ x, report.activity ≠ .executed (.readDelay x)

/-- The second session gives the same account of itself as the first, and is blind. -/
structure Agree (a b : Session) : Prop where
  passes : a.passes = b.passes
  failure : a.failure = b.failure
  frames : a.frames = b.frames
  rolled : a.player.dice.rolled = b.player.dice.rolled
  traces : Record.traces a.records = Record.traces b.records
  blind : b.Blind

theorem Agree.refl {session : Session} (blind : session.Blind) : session.Agree session :=
  ⟨rfl, rfl, rfl, rfl, rfl, blind⟩

/-! ### The account of a session, read off its reports -/

theorem blind_iff (session : Session) : session.Blind ↔
    ∀ activity ∈ session.reports.map Report.activity, ∀ x, activity ≠ .executed (.readDelay x) := by
  simp [Blind]

theorem passes_eq (session : Session) :
    session.passes = (session.reports.map Report.activity).countP fun activity =>
      activity.hears && activity ≠ .quit := by
  rw [passes, List.countP_map]
  rfl

theorem frames_eq (session : Session) :
    session.frames =
      (session.reports.map fun report => report.frame.map Texture.image).zipIdx.filterMap
        fun (image, ended) => image.map (ended, ·) := by
  simp only [frames, List.zipIdx_map, List.filterMap_map, Function.comp_def, Prod.map, id,
    Option.map_map]

theorem findSome?_failure? (reports : List Report) :
    reports.findSome? (fun report => report.activity.failure?) =
      (reports.map Report.activity).findSome? Activity.failure? := by
  rw [List.findSome?_map]
  rfl

theorem traces_records (session : Session) :
    Record.traces session.records = Record.traces session.opening ++
      (session.reports.map fun report => Record.traces report.records).flatten := by
  unfold records Record.traces
  rw [List.filter_append, List.filter_flatMap, List.flatMap_def]

/-- Views are the same if everything in view is. -/
theorem map_eq_of_forall₂ {α β : Type} {R : α → α → Prop} {view : α → β}
    (same : ∀ a b, R a b → view a = view b) {l r : List α} (alike : List.Forall₂ R l r) :
    l.map view = r.map view := by
  induction alike with
  | nil => rfl
  | cons first _ ih => rw [List.map_cons, List.map_cons, same _ _ first, ih]

/-! ### Sessions at different speeds -/

/-- Whether passes begin, and with which player, does not depend on the speed. -/
theorem launch_speed (rom : String) (scale cycle pace : Nat) (host : Host) (dice : Dice) :
    launch ⟨rom, scale, cycle⟩ host dice = launch ⟨rom, scale, pace⟩ host dice :=
  rfl

theorem played_alike (window : Window) (opening : List Record) (player : Player)
    (cycle pace : Nat) {script other : List Pass}
    (heard : script.map Pass.steering = other.map Pass.steering)
    (blind : (played window opening player cycle script).Blind) :
    List.Forall₂ Stage.Alike (player.stages cycle (script ++ [Pass.last]))
      (player.stages pace (other ++ [Pass.last])) := by
  refine (Player.Alike.refl player).stages cycle pace ?_ ?_
  · rw [List.map_append, List.map_append, heard]
  · intro stage member
    refine blind stage.report ?_
    change stage.report ∈ (player.play cycle (script ++ [Pass.last])).2
    rw [← player.report_stages]
    exact List.mem_map_of_mem member

/-- An account is read off the reports one by one, so alike stages make for the same account. -/
theorem played_agree (window : Window) (opening : List Record) (player : Player)
    (cycle pace : Nat) {script other : List Pass}
    (alike : List.Forall₂ Stage.Alike (player.stages cycle (script ++ [Pass.last]))
      (player.stages pace (other ++ [Pass.last])))
    (blind : (played window opening player cycle script).Blind) :
    (played window opening player cycle script).Agree
      (played window opening player pace other) := by
  have views {β : Type} (view : Report → β)
      (same : ∀ s t : Stage, s.Alike t → view s.report = view t.report) :
      (player.play cycle (script ++ [Pass.last])).2.map view =
        (player.play pace (other ++ [Pass.last])).2.map view := by
    rw [← player.report_stages, ← player.report_stages, List.map_map, List.map_map]
    exact map_eq_of_forall₂ same alike
  -- Everything that an account is agreed on is one of these four views.
  have activities := views Report.activity fun _ _ same => same.activity
  have frames := views (fun report => report.frame.map Texture.image) fun _ _ same => same.frame
  have traces := views (fun report => Record.traces report.records) fun _ _ same => same.traces
  have dice := map_eq_of_forall₂ (fun _ _ same => same.after.dice) alike
  constructor
  · rw [passes_eq, passes_eq]
    exact congrArg _ activities
  · unfold played
    dsimp only
    rw [findSome?_failure?, findSome?_failure?, activities]
  · rw [frames_eq, frames_eq]
    unfold played
    dsimp only
    rw [frames]
  · unfold played
    dsimp only
    rw [Player.dice_play, Player.dice_play, dice]
  · rw [traces_records, traces_records]
    exact congrArg _ (congrArg _ traces)
  · rw [blind_iff] at blind ⊢
    unfold played at blind ⊢
    dsimp only at blind ⊢
    rw [← activities]
    exact blind

theorem ofSettings_agree {settings others : Settings} (game : settings.game = others.game)
    (host : Host) (dice : Dice) {script other : List Pass}
    (heard : script.map Pass.steering = other.map Pass.steering)
    (blind : (ofSettings settings host dice script).Blind) :
    (ofSettings settings host dice script).Agree (ofSettings others host dice other) ∧
      List.Forall₂ Stage.Alike (stagesOf settings host dice script)
        (stagesOf others host dice other) := by
  obtain ⟨rom, scale, cycle⟩ := settings
  obtain ⟨rom', scale', pace⟩ := others
  obtain ⟨rfl, rfl⟩ := Prod.mk.inj game
  unfold stagesOf start?
  unfold ofSettings at blind ⊢
  rw [launch_speed rom scale pace cycle]
  cases launched : launch ⟨rom, scale, cycle⟩ host dice with
  | error refusal =>
    rw [launched] at blind
    exact ⟨.refl blind, .nil⟩
  | ok found =>
    obtain ⟨player, opening⟩ := found
    rw [launched] at blind
    have alike := played_alike _ opening player cycle pace heard blind
    exact ⟨played_agree _ opening player cycle pace alike blind, alike⟩

/-- Two sessions of one rom that hear the same, but for their pace, with canvases that refuse the
same frames. If the first never reads the delay, neither does the second: they make the same passes,
show the same frames, roll the same bytes, execute the same opcodes and end alike. After every pass
they are in the same state with the same past, but for the timers. -/
theorem clock_unseen (first second : List String) (host : Host) (dice : Dice)
    (script other : List Pass)
    (game : (Settings.ofArguments first).map Settings.game =
      (Settings.ofArguments second).map Settings.game)
    (heard : script.map Pass.steering = other.map Pass.steering)
    (blind : (ofArguments first host dice script).Blind) :
    (ofArguments first host dice script).Agree (ofArguments second host dice other) ∧
      (stages first host dice script).map (·.after.console.untimed) =
        (stages second host dice other).map (·.after.console.untimed) := by
  unfold ofArguments at blind ⊢
  unfold stages
  cases accepted : Settings.ofArguments first with
  | error cause =>
    rw [accepted] at game blind
    -- Command lines about the same are refused for the same reason.
    cases refused : Settings.ofArguments second with
    | error reason =>
      rw [refused] at game
      cases game
      exact ⟨.refl blind, rfl⟩
    | ok others =>
      rw [refused] at game
      cases game
  | ok settings =>
    rw [accepted] at game blind
    cases taken : Settings.ofArguments second with
    | error reason =>
      rw [taken] at game
      cases game
    | ok others =>
      rw [taken] at game
      obtain ⟨agree, alike⟩ := ofSettings_agree (Except.ok.inj game) host dice heard blind
      exact ⟨agree, map_eq_of_forall₂ (fun _ _ same => same.after.console) alike⟩

/-- A program sets the delay, rolls a byte, blanks the screen and idles: once at full speed, and
once slowly with a key that makes it hurry and with longer rows of textures. The delays differ. -/
theorem clock_unseen_slow :
    let host :=
      Host.ofFile "rom.ch8" [0x60, 0x0A, 0xF0, 0x15, 0xC1, 0xFF, 0x00, 0xE0, 0x12, 0x08]
    let long : Canvas := ⟨.ok ⟨256, by decide, Vector.replicate _ 0xAA⟩, .ok ()⟩
    let quick : List Pass := List.replicate 5 ⟨0, [], .plain⟩
    let slow : List Pass := [⟨50000000, [.key Keycode.space true], long⟩, ⟨0, [], long⟩,
      ⟨50000000, [.key Keycode.space false], long⟩, ⟨5, [], long⟩, ⟨0, [], long⟩]
    let dice := Dice.ofList [7]
    (stages ["rom.ch8"] host dice quick).map (·.after.console.machine.delay) =
        [0, 10, 10, 10, 10, 10] ∧
      (stages ["--speed", "10", "rom.ch8"] host dice slow).map
        (·.after.console.machine.delay) = [0, 10, 7, 4, 0, 0] ∧
      (ofArguments ["rom.ch8"] host dice quick).frames.map Prod.fst = [4] ∧
      (ofArguments ["rom.ch8"] host dice quick).Agree
        (ofArguments ["--speed", "10", "rom.ch8"] host dice slow) ∧
      (stages ["rom.ch8"] host dice quick).map (·.after.console.untimed) =
        (stages ["--speed", "10", "rom.ch8"] host dice slow).map (·.after.console.untimed) := by
  intro host long quick slow dice
  have facts : (stages ["rom.ch8"] host dice quick).map (·.after.console.machine.delay) =
        [0, 10, 10, 10, 10, 10] ∧
      (ofArguments ["rom.ch8"] host dice quick).frames.map Prod.fst = [4] ∧
      ∀ report ∈ (ofArguments ["rom.ch8"] host dice quick).reports, ∀ x,
        report.activity ≠ .executed (.readDelay x) := by
    decide +kernel
  obtain ⟨delays, shown, blind⟩ := facts
  have later : (stages ["--speed", "10", "rom.ch8"] host dice slow).map
      (·.after.console.machine.delay) = [0, 10, 7, 4, 0, 0] := by
    decide +kernel
  refine ⟨delays, later, shown, ?_⟩
  exact clock_unseen ["rom.ch8"] ["--speed", "10", "rom.ch8"] host dice quick slow
    (by decide +kernel) (by decide +kernel) blind

end Session

end Chip8
