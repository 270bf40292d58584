import Chip8.Proofs.Player.Ticks
import Chip8.Proofs.Veil

/-!
# The buzzer

The player remembers whether it last told the buzzer to sound, and at the end of a pass tells of a
change. The sound timer may have been set by an instruction, counted down by any number of ticks, or
put back to what it was long ago; the player compares only what it remembers with where the timer
ends up. Keys never touch that timer, so what it remembers is right again before the next cycle,
whatever is heard.

## Main result

`buzzer_follows_sound`: what is told about the buzzer alternates and begins with on, and after every
pass the latest of it says whether the sound timer runs. A pass tells about the buzzer once at most.
-/

namespace Chip8

/-! ### What is told about the buzzer -/

namespace Record

/-- What a record says about the buzzer, if it is about the buzzer. -/
def buzzer? : Record → Option Bool
  | .buzzer on => some on
  | _ => none

/-- The records about the buzzer are known by their level and text. -/
theorem buzzer?_eq_some_iff {record : Record} {on : Bool} :
    record.buzzer? = some on ↔
      record.level = .debug ∧ record.text = if on then "buzzer on" else "buzzer off" := by
  cases record with
  | buzzer told =>
    unfold text
    cases told <;> cases on <;> decide
  | romLoaded size =>
    -- The only other records of that level begin differently.
    have apart (rest : List Char) : ("loaded ".toList ++ rest) ≠
        (if on then "buzzer on" else "buzzer off").toList := by
      cases on <;> simp
    unfold text
    simp only [buzzer?, reduceCtorEq, false_iff, not_and]
    intro _ same
    rw [String.append_assoc] at same
    exact apart _ (by rw [← same, String.toList_append])
  | executing | unknownPress | unknownRelease | droppedKey | romOpened => simp [buzzer?, level]

/-- What records say about the buzzer, in order. -/
def buzzes (records : List Record) : List Bool :=
  records.filterMap buzzer?

@[simp] theorem buzzes_append (early late : List Record) :
    buzzes (early ++ late) = buzzes early ++ buzzes late :=
  List.filterMap_append

end Record

/-- On and off take turns, and on is the first. -/
def Alternates (buzzes : List Bool) : Prop :=
  ∀ place on, buzzes[place]? = some on → (on = true ↔ place % 2 = 0)

/-- What was said last; the buzzer is off until something is said. -/
def latest (buzzes : List Bool) : Bool :=
  buzzes.getLast?.getD false

theorem latest_concat (buzzes : List Bool) (on : Bool) : latest (buzzes ++ [on]) = on := by
  simp [latest]

theorem Alternates.nil : Alternates [] := by
  intro place on found
  cases found

/-- By the parity of their number the latest one is known. -/
theorem Alternates.latest_iff {buzzes : List Bool} (alternates : Alternates buzzes) :
    latest buzzes = true ↔ buzzes.length % 2 = 1 := by
  rcases List.eq_nil_or_concat' buzzes with rfl | ⟨early, last, rfl⟩
  · simp [latest]
  · have turn := alternates early.length last (by simp)
    rw [latest_concat, turn, List.length_append, List.length_singleton]
    omega

theorem Alternates.concat {buzzes : List Bool} {on : Bool} (alternates : Alternates buzzes)
    (changed : on ≠ latest buzzes) : Alternates (buzzes ++ [on]) := by
  intro place value found
  by_cases inside : place < buzzes.length
  · rw [List.getElem?_append_left inside] at found
    exact alternates place value found
  · obtain ⟨short, rfl⟩ : place = buzzes.length ∧ value = on := by
      rw [List.getElem?_append_right (by omega), List.getElem?_singleton] at found
      split at found
      next first => exact ⟨by omega, (Option.some.inj found).symm⟩
      next => cases found
    -- The new one is on if and only if the one before it was off.
    have turned : value = !latest buzzes := Bool.eq_not.mpr changed
    rw [short, turned, Bool.not_eq_true', ← Bool.not_eq_true, alternates.latest_iff]
    omega

/-! ### What is not about the buzzer -/

namespace Machine

theorem buzzes_told (m : Machine) : Record.buzzes m.told = [] := by
  unfold told
  split
  · rfl
  · cases m.fetch <;> rfl

theorem buzzes_press (m : Machine) (key : UInt8) : Record.buzzes (m.press key).2 = [] := by
  unfold press
  split
  next known =>
    unfold deliver
    split
    · rfl
    · dsimp only
      split <;> rfl
  next unknown => rfl

theorem buzzes_release (m : Machine) (key : UInt8) : Record.buzzes (m.release key).2 = [] := by
  unfold release
  split <;> rfl

end Machine

namespace Player

theorem buzzes_key (player : Player) (code : Keycode) (isDown : Bool) :
    Record.buzzes (player.key code isDown).2 = [] := by
  unfold key
  cases Keypad.key? code with
  | some digit =>
    cases isDown with
    | true => exact player.console.machine.buzzes_press digit
    | false => exact player.console.machine.buzzes_release digit
  | none =>
    dsimp only
    split
    · rfl
    · split <;> rfl

theorem buzzes_hear (player : Player) (events : List Event) :
    Record.buzzes (player.hear events).records = [] := by
  induction events generalizing player with
  | nil => rfl
  | cons event rest ih =>
    cases event with
    | quit => rfl
    | other => exact ih player
    | key code isDown =>
      simp only [hear, Record.buzzes_append, buzzes_key, ih, List.append_nil]

/-- Nothing that is heard concerns the buzzer. -/
theorem listen_silent (player : Player) (input : Pass) :
    Record.buzzes (player.listen input).records = [] ∧
      (player.listen input).player.buzzing = player.buzzing := by
  obtain ⟨console, fastForward, rewinding, heard⟩ := player.listen_changes input
  refine ⟨(player.present.wait input.advance).buzzes_hear input.events, ?_⟩
  rw [heard]

/-- A cycle tells nothing about the buzzer, also where it changes the sound timer. -/
theorem turn_silent (player : Player) :
    Record.buzzes player.turn.2.2.2 = [] ∧ player.turn.1.buzzing = player.buzzing := by
  constructor
  · have told : Record.buzzes player.stepOn.2.2 = [] := by
      change Record.buzzes (player.console.step player.dice.top).records = []
      rw [Console.step_records]
      exact player.console.machine.buzzes_told
    unfold turn
    split
    · split <;> rfl
    · rcases stepped : player.stepOn with ⟨after, fault | _ | instruction, records⟩ <;>
        rwa [stepped] at told
  · have turns := player.turn_turns
    generalize player.turn.2.1 = activity at turns
    generalize player.turn.1 = after at turns ⊢
    generalize player.turn.2.2.1 = ticks at turns
    cases turns <;> rfl

/-! ### What a pass says -/

/-- Afterwards the buzzer is as the sound timer has it, and a change is told of. -/
theorem buzz_follows (player : Player) :
    player.buzz.1.buzzing = player.console.machine.sounds ∧
      Record.buzzes player.buzz.2 =
        if player.console.machine.sounds = player.buzzing then []
        else [player.console.machine.sounds] := by
  unfold buzz
  split
  next same => exact ⟨same.symm, rfl⟩
  next changed =>
    have turned : (!player.buzzing) = player.console.machine.sounds := by
      rw [Bool.not_eq]
      exact fun same => changed same.symm
    simp [Record.buzzes, Record.buzzer?, turned]

theorem rest_buzzing (player : Player) (cycle : Nat) :
    (player.rest cycle).buzzing = player.buzzing :=
  rfl

/-- A pass tells about the buzzer if it changes, and then where it is now. -/
theorem pass_buzzes (player : Player) (cycle : Nat) (input : Pass) :
    Record.buzzes (player.pass cycle input).2.records =
      if (player.pass cycle input).1.buzzing = player.buzzing then []
      else [(player.pass cycle input).1.buzzing] := by
  have comes := player.pass_comes cycle input
  obtain ⟨heard, held⟩ := player.listen_silent input
  obtain ⟨said, kept⟩ := (player.listen input).player.turn_silent
  generalize player.pass cycle input = done at comes ⊢
  cases comes with
  | unshown =>
    rw [if_pos rfl]
    rfl
  | quit =>
    rw [if_pos held]
    exact heard
  | @goesOn frame turned activity ticks told renders stays turn on =>
    rw [turn] at said kept
    obtain ⟨now, change⟩ := turned.buzz_follows
    have same : turned.buzzing = player.buzzing := kept.trans held
    rw [same] at change
    simp only [Record.buzzes_append, heard, said, change, rest_buzzing, now, List.nil_append]
  | ends renders stays turn off =>
    rw [turn] at said kept
    rw [if_pos (kept.trans held), Record.buzzes_append, heard, said]
    rfl

theorem listen_sounds (player : Player) (input : Pass) :
    (player.listen input).player.console.machine.sounds = player.console.machine.sounds := by
  have same := Timer.sound.reading_listen player input
  exact congrArg (fun reading => decide (0 < reading)) same

/-- A cycle that ends the session has met a fault, which leaves the console alone. -/
theorem Turned.console_of_ends {player : Player} {activity : Activity} {console : Console}
    (turned : player.Turned activity console) (ends : activity.goesOn = false) :
    console = player.console := by
  cases turned with
  | failed fault => rfl
  | steppedBack | atBeginning | waited | executed => cases ends

/-- If the buzzer is as the sound timer has it before a pass, then it is so after the pass, even
where the pass is cut short. -/
theorem pass_buzzing (player : Player) (cycle : Nat) (input : Pass)
    (right : player.buzzing = player.console.machine.sounds) :
    (player.pass cycle input).1.buzzing = (player.pass cycle input).1.console.machine.sounds := by
  have comes := player.pass_comes cycle input
  have turns := (player.listen input).player.turn_turned
  obtain ⟨-, held⟩ := player.listen_silent input
  obtain ⟨-, kept⟩ := (player.listen input).player.turn_silent
  have heard : (player.listen input).player.buzzing =
      (player.listen input).player.console.machine.sounds := by
    rw [held, player.listen_sounds input, right]
  generalize player.pass cycle input = done at comes ⊢
  cases comes with
  | unshown => exact right
  | quit => exact heard
  | @goesOn frame turned activity ticks told renders stays turn on =>
    obtain ⟨now, -⟩ := turned.buzz_follows
    change turned.buzz.1.buzzing = turned.buzz.1.console.machine.sounds
    rw [now, buzz_console]
  | ends renders stays turn off =>
    rw [turn] at turns kept
    rw [kept, heard, turns.console_of_ends off]

end Player

/-! ### What all passes say -/

/-- What some stages say about the buzzer. -/
def Stage.buzzes (stages : List Stage) : List Bool :=
  Record.buzzes (stages.flatMap (·.report.records))

theorem Stage.buzzes_concat (stages : List Stage) (stage : Stage) :
    buzzes (stages ++ [stage]) = buzzes stages ++ Record.buzzes stage.report.records := by
  simp [buzzes]

/-- What is known of a player after some stages: what they said alternates, the player remembers the
last of it, and the sound timer has it so. -/
structure Buzzed (past : List Stage) (player : Player) : Prop where
  alternates : Alternates (Stage.buzzes past)
  remembered : latest (Stage.buzzes past) = player.buzzing
  right : player.buzzing = player.console.machine.sounds

namespace Buzzed

theorem start (dice : Dice) (memory : Memory) :
    Buzzed [] (Player.start ⟨{ Machine.initial with memory }, []⟩ dice) :=
  ⟨.nil, rfl, rfl⟩

theorem pass {past : List Stage} {player : Player} (buzzed : Buzzed past player) (cycle : Nat)
    (input : Pass) :
    Buzzed (past ++ [player.stage cycle input]) (player.stage cycle input).after := by
  have said : Record.buzzes (player.stage cycle input).report.records = _ :=
    player.pass_buzzes cycle input
  have right : (player.stage cycle input).after.buzzing = _ :=
    player.pass_buzzing cycle input buzzed.right
  by_cases same : (player.stage cycle input).after.buzzing = player.buzzing
  · have silent := said.trans (if_pos same)
    constructor
    · rw [Stage.buzzes_concat, silent, List.append_nil]
      exact buzzed.alternates
    · rw [Stage.buzzes_concat, silent, List.append_nil, same]
      exact buzzed.remembered
    · exact right
  · have told := said.trans (if_neg same)
    constructor
    · rw [Stage.buzzes_concat, told]
      refine buzzed.alternates.concat ?_
      rw [buzzed.remembered]
      exact same
    · rw [Stage.buzzes_concat, told, latest_concat]
      rfl
    · exact right

end Buzzed

namespace Session

/-- All that was told by the time that a number of passes had ended. -/
def recordsUntil (session : Session) (ended : Nat) : List Record :=
  session.opening ++ (session.reports.take ended).flatMap Report.records

/-- What is told before the first pass is about the rom. -/
theorem prepare_records {settings : Settings} {found : Opening} {dice : Dice} {player : Player}
    {records : List Record} (prepared : prepare settings found dice = .ok (player, records)) :
    ∃ size, records = [.romLoaded size, .romOpened settings.rom size] := by
  unfold prepare at prepared
  split at prepared
  next => cases prepared
  next =>
    simp only [Console.load] at prepared
    cases loaded : Rom.read found.pieces with
    | error cause => simp [loaded] at prepared
    | ok bytes =>
      simp only [loaded, Except.ok.injEq, Prod.mk.injEq] at prepared
      exact ⟨bytes.length, prepared.2.symm⟩

theorem opening_silent (arguments : List String) (host : Host) (dice : Dice)
    (script : List Pass) :
    Record.buzzes (ofArguments arguments host dice script).opening = [] := by
  unfold ofArguments
  cases Settings.ofArguments arguments with
  | error cause => rfl
  | ok settings =>
    dsimp only
    unfold ofSettings
    cases launched : launch settings host dice with
    | error refusal => rfl
    | ok found =>
      obtain ⟨size, told⟩ := prepare_records (launch_eq_ok launched)
      dsimp only [played]
      rw [told]
      rfl

theorem recordsUntil_buzzes (arguments : List String) (host : Host) (dice : Dice)
    (script : List Pass) (ended : Nat) :
    Record.buzzes ((ofArguments arguments host dice script).recordsUntil ended) =
      Stage.buzzes ((stages arguments host dice script).take ended) := by
  rw [recordsUntil, Record.buzzes_append, opening_silent, ← stages_report, ← List.map_take,
    List.flatMap_map]
  rfl

theorem buzzed_before {arguments : List String} {host : Host} {dice : Dice}
    {script : List Pass} {place : Nat} {stage : Stage}
    (found : (stages arguments host dice script)[place]? = some stage) :
    Buzzed ((stages arguments host dice script).take place) stage.before ∧
      ∃ cycle, stage = stage.before.stage cycle stage.input :=
  stages_keep Buzzed (Buzzed.start dice) (fun cycle _ _ input _ held => held.pass cycle input) found

theorem buzzed_after {arguments : List String} {host : Host} {dice : Dice} {script : List Pass}
    {place : Nat} {stage : Stage}
    (found : (stages arguments host dice script)[place]? = some stage) :
    Buzzed ((stages arguments host dice script).take (place + 1)) stage.after := by
  obtain ⟨before, cycle, same⟩ := buzzed_before found
  have after := before.pass cycle stage.input
  rw [← same] at after
  rw [List.take_add_one, found]
  exact after

/-- What a session says about the buzzer alternates, however many of its passes are looked at. -/
theorem alternates_until (arguments : List String) (host : Host) (dice : Dice)
    (script : List Pass) (ended : Nat) :
    Alternates (Stage.buzzes ((stages arguments host dice script).take ended)) := by
  induction ended with
  | zero => exact .nil
  | succ ended ih =>
    cases found : (stages arguments host dice script)[ended]? with
    | some stage => exact (buzzed_after found).alternates
    | none =>
      -- The session is over, so there is nothing new.
      rw [List.take_add_one, found]
      simpa using ih

theorem recordsUntil_length (session : Session) :
    session.recordsUntil session.reports.length = session.records := by
  rw [recordsUntil, List.take_length]
  rfl

/-- What is told about the buzzer are debug records of two texts. Over a session they alternate,
beginning with on. After every pass, forwards or backwards, the latest of them says whether the
sound timer is above zero, and off is meant if there is none. No pass tells two of them. -/
theorem buzzer_follows_sound (arguments : List String) (host : Host) (dice : Dice)
    (script : List Pass) :
    let session := ofArguments arguments host dice script
    let stages := stages arguments host dice script
    (∀ record on, Record.buzzer? record = some on ↔
        record.level = .debug ∧ record.text = if on then "buzzer on" else "buzzer off") ∧
      stages.map Stage.report = session.reports ∧
      Alternates (Record.buzzes session.records) ∧
      (∀ place stage, stages[place]? = some stage →
        (latest (Record.buzzes (session.recordsUntil (place + 1))) = true ↔
          0 < stage.after.console.machine.sound)) ∧
      ∀ report ∈ session.reports, (Record.buzzes report.records).length ≤ 1 := by
  intro session stages
  have reports : stages.map Stage.report = session.reports :=
    stages_report arguments host dice script
  refine ⟨fun record on => Record.buzzer?_eq_some_iff, reports, ?_, ?_, ?_⟩
  · rw [← session.recordsUntil_length, recordsUntil_buzzes]
    exact alternates_until arguments host dice script _
  · intro place stage found
    have buzzed := buzzed_after found
    rw [recordsUntil_buzzes, buzzed.remembered, buzzed.right]
    exact decide_eq_true_iff
  · intro report member
    rw [← reports] at member
    obtain ⟨stage, inside, rfl⟩ := List.mem_map.mp member
    obtain ⟨place, found⟩ := List.mem_iff_getElem?.mp inside
    obtain ⟨-, cycle, same⟩ := buzzed_before found
    -- A pass tells where the buzzer is in the end, if it has changed, and nothing more.
    have said : Record.buzzes (stage.before.stage cycle stage.input).report.records = _ :=
      stage.before.pass_buzzes cycle stage.input
    rw [same, said]
    split <;> simp

/-- A sound that has run out is heard again when its cycles are taken back, until it has not begun.
-/
theorem buzzer_follows_sound_taken_back :
    let host := Host.ofFile "rom.ch8" [0x60, 0x02, 0xF0, 0x18, 0x12, 0x04]
    let script : List Pass := [⟨0, [], .plain⟩, ⟨0, [], .plain⟩,
      ⟨2 * Player.timerPeriod, [], .plain⟩, ⟨0, [.key Keycode.escape true], .plain⟩,
      ⟨0, [], .plain⟩]
    let session := ofArguments ["rom.ch8"] host (Dice.ofList []) script
    Record.buzzes session.records = [true, false, true, false] ∧
      ∃ stage, (stages ["rom.ch8"] host (Dice.ofList []) script)[3]? = some stage ∧
        (latest (Record.buzzes (session.recordsUntil 4)) = true ↔
          0 < stage.after.console.machine.sound) ∧
        stage.after.console.machine.sound = 2 := by
  intro host script session
  have facts : Record.buzzes session.records = [true, false, true, false] ∧
      (stages ["rom.ch8"] host (Dice.ofList []) script)[3]?.map
        (·.after.console.machine.sound) = some 2 := by
    decide +kernel
  obtain ⟨said, fourth⟩ := facts
  obtain ⟨stage, found, sound⟩ := Option.map_eq_some_iff.mp fourth
  obtain ⟨-, -, -, follows, -⟩ :=
    buzzer_follows_sound ["rom.ch8"] host (Dice.ofList []) script
  exact ⟨said, stage, found, follows 3 stage found, sound⟩

end Session

end Chip8
