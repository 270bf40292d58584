import Chip8.Proofs.Player.Keys
import Chip8.Proofs.Player.Ticks

/-!
# Pauses and the pace

A pass that is done before its cycle is over sleeps for the rest of it, unless it is told to hurry.
The next cycle begins when the pass ends, whether or not it slept: a pass that takes too long is not
made up for later, and one that is the last sleeps no more.

## Main result

`pauses_fill_cycles`: every pass but the last takes as long as a cycle, or longer if more time has
gone by, or only the time that has gone by if it hurries. The clock at the end is the sum of these.
-/

namespace Chip8

/-- What is known of a player after some passes: it hurries if the key for it is held, and unless
the last of them was the last of all, a cycle has just ended. -/
structure Paced (past : List Stage) (player : Player) : Prop where
  fastForward : player.fastForward = Event.holds Keycode.space (Stage.events past)
  lastCycle : (∀ stage ∈ past, stage.report.activity.goesOn) → player.lastCycle = player.clock

namespace Paced

theorem start (dice : Dice) (memory : Memory) :
    Paced [] (Player.start ⟨{ Machine.initial with memory }, []⟩ dice) :=
  ⟨rfl, fun _ => rfl⟩

theorem pass {past : List Stage} {player : Player} (paced : Paced past player) (cycle : Nat)
    (input : Pass) :
    Paced (past ++ [player.stage cycle input]) (player.stage cycle input).after := by
  have keeps := (player.stage_passes cycle input).keepsTime
  constructor
  · have events : Stage.events (past ++ [player.stage cycle input]) =
        Stage.events past ++ (player.stage cycle input).heard := by
      rw [Stage.events, List.flatMap_append, List.flatMap_singleton]
      rfl
    rw [keeps.fastForward, events]
    exact (player.stage cycle input).ready_fastForward _ paced.fastForward
  · intro on
    exact keeps.lastCycle (on _ (by simp))

end Paced

namespace Player

/-- Neither a cycle nor the buzzer takes any time. -/
theorem buzz_turn_times (player : Player) :
    player.turn.1.buzz.1.clock = player.clock ∧
      player.turn.1.buzz.1.lastCycle = player.lastCycle := by
  have turns := player.turn_turns
  generalize player.turn = turn at turns ⊢
  obtain ⟨turned, activity, ticks, records⟩ := turn
  dsimp only at turns ⊢
  obtain ⟨buzzing, buzzed⟩ := turned.buzz_eq
  rw [buzzed]
  cases turns with
  | on on answer => exact ⟨rfl, rfl⟩
  | back back => exact ⟨rfl, rfl⟩
  | failed answer => exact ⟨rfl, rfl⟩

theorem pass_slept {player : Player} {cycle : Nat} {input : Pass}
    (on : (player.pass cycle input).2.activity.goesOn) :
    (player.pass cycle input).2.slept =
      (player.listen input).player.turn.1.buzz.1.pause cycle := by
  have comes := player.pass_comes cycle input
  generalize player.pass cycle input = done at comes on ⊢
  cases comes with
  | unshown | quit => cases on
  | goesOn renders stays turn =>
    rw [turn]
  | ends renders stays turn off =>
    rw [off] at on
    cases on

end Player

namespace Session

/-- The clock at the end is that of the last stage. -/
theorem clock_eq_getLast? (arguments : List String) (host : Host) (dice : Dice)
    (script : List Pass) :
    (ofArguments arguments host dice script).player.clock =
      (((stages arguments host dice script).map fun stage => stage.after.clock).getLast?).getD
        0 := by
  unfold ofArguments stages
  -- A session that does not come to its first pass leaves the clock at zero.
  cases Settings.ofArguments arguments with
  | error cause => rfl
  | ok settings =>
    dsimp only
    unfold ofSettings stagesOf start?
    cases launched : launch settings host dice with
    | error refusal => rfl
    | ok found =>
      obtain ⟨player, opening⟩ := found
      obtain ⟨memory, rfl⟩ := prepare_eq_ok (launch_eq_ok launched)
      exact Player.view_play Player.clock _ settings.cycle _

/-- The clock at the end shows all the time that went by in passes. -/
theorem clock_eq_spent (arguments : List String) (host : Host) (dice : Dice)
    (script : List Pass) :
    (ofArguments arguments host dice script).player.clock =
      Stage.spent (stages arguments host dice script) := by
  rw [clock_eq_getLast?, List.getLast?_map]
  rcases (stages arguments host dice script).eq_nil_or_concat with none | ⟨past, last, all⟩
  · rw [none]
    rfl
  · rw [List.concat_eq_append] at all
    have found : (stages arguments host dice script)[past.length]? = some last := by
      rw [all]
      simp
    obtain ⟨before, cycle, same⟩ := counted found
    have after := before.pass cycle last.input
    rw [← same, all, List.take_left] at after
    rw [all, List.getLast?_concat]
    exact after.clock

theorem stage_eq {arguments : List String} {host : Host} {dice : Dice} {script : List Pass}
    {settings : Settings} (accepted : Settings.ofArguments arguments = .ok settings) {place : Nat}
    {stage : Stage} (found : (stages arguments host dice script)[place]? = some stage) :
    stage = stage.before.stage settings.cycle stage.input := by
  unfold stages at found
  rw [accepted] at found
  dsimp only at found
  unfold stagesOf at found
  split at found
  next => cases found
  next player started =>
    exact (@Player.stages_keep _ (fun _ _ => True) (fun _ _ _ _ _ => trivial) player [] trivial
      _ _ _ found).2

theorem paced {arguments : List String} {host : Host} {dice : Dice} {script : List Pass}
    {place : Nat} {stage : Stage}
    (found : (stages arguments host dice script)[place]? = some stage) :
    Paced ((stages arguments host dice script).take place) stage.before :=
  (stages_keep Paced (Paced.start dice) (fun cycle _ _ input _ paced => paced.pass cycle input)
    found).1

/-- When a pass begins, the cycle of the one before has just ended. -/
theorem lastCycle_eq_clock {arguments : List String} {host : Host} {dice : Dice}
    {script : List Pass} {place : Nat} {stage : Stage}
    (found : (stages arguments host dice script)[place]? = some stage) :
    stage.before.lastCycle = stage.before.clock :=
  (paced found).lastCycle (goesOn_of_mem_take found)

/-- A pass that goes on sleeps for what its advance leaves of a cycle, unless it hurries. -/
theorem slept_eq {arguments : List String} {host : Host} {dice : Dice} {script : List Pass}
    {settings : Settings} (accepted : Settings.ofArguments arguments = .ok settings) {place : Nat}
    {stage : Stage} (found : (stages arguments host dice script)[place]? = some stage)
    (on : stage.report.activity.goesOn) :
    stage.report.slept =
      if Event.holds Keycode.space
        (Stage.events ((stages arguments host dice script).take (place + 1))) then 0
      else settings.cycle - stage.input.advance := by
  have same := stage_eq accepted found
  have after := (paced found).pass settings.cycle stage.input
  have keeps := (Player.passes_of_goesOn same on).keepsTime
  rw [← same] at after
  have taken : (stages arguments host dice script).take (place + 1) =
      (stages arguments host dice script).take place ++ [stage] := by
    rw [List.take_add_one, found, Option.toList_some]
  -- Since the last cycle no time has gone by but the advance.
  have elapsed : (stage.before.listen stage.input).player.clock -
      (stage.before.listen stage.input).player.lastCycle = stage.input.advance := by
    rw [stage.before.listen_clock, stage.before.listen_lastCycle, lastCycle_eq_clock found,
      Nat.add_sub_cancel_left]
  rw [keeps.paused on, elapsed, taken, ← after.fastForward, keeps.fastForward]

theorem slept_of_last {arguments : List String} {host : Host} {dice : Dice}
    {script : List Pass} {place : Nat} {stage : Stage}
    (found : (stages arguments host dice script)[place]? = some stage)
    (ends : stage.report.activity.goesOn = false) : stage.report.slept = 0 := by
  obtain ⟨-, cycle, same⟩ := counted found
  exact (Player.passes_of_eq same).keepsTime.idle ends

/-- The last cycle never ended later than now, so a pause is worked out without a negative time. -/
theorem pause?_stage {arguments : List String} {host : Host} {dice : Dice}
    {script : List Pass} {settings : Settings}
    (accepted : Settings.ofArguments arguments = .ok settings) {place : Nat} {stage : Stage}
    (found : (stages arguments host dice script)[place]? = some stage)
    (on : stage.report.activity.goesOn) :
    (stage.before.listen stage.input).player.turn.1.buzz.1.pause? settings.cycle =
      some stage.report.slept := by
  obtain ⟨clock, lastCycle⟩ := (stage.before.listen stage.input).player.buzz_turn_times
  have ahead : (stage.before.listen stage.input).player.turn.1.buzz.1.lastCycle ≤
      (stage.before.listen stage.input).player.turn.1.buzz.1.clock := by
    rw [clock, lastCycle, stage.before.listen_clock, stage.before.listen_lastCycle,
      lastCycle_eq_clock found]
    exact Nat.le_add_right _ _
  rw [Player.pause?_eq ahead]
  rw [stage_eq accepted found] at on ⊢
  exact congrArg some (Player.pass_slept on).symm

/-- What is the same of every stage in its place makes for the same list. -/
theorem map_eq_mapIdx {α β : Type} {l : List α} {view : α → β} {expected : Nat → α → β}
    (same : ∀ place a, l[place]? = some a → view a = expected place a) :
    l.map view = l.mapIdx expected := by
  apply List.ext_getElem?
  intro place
  rw [List.getElem?_map, List.getElem?_mapIdx]
  cases found : l[place]? with
  | none => rfl
  | some a => exact congrArg some (same place a found)

/-- A pass that is not the last takes the time that has gone by, or a whole cycle if that is longer
and it does not hurry. What is missing of the cycle it sleeps, and no time that this is worked out
from is negative. The clock at the end shows the sum of these times, with that of a last pass that
is cut short after its frame, and the sleeps of the session are those of its passes. -/
theorem pauses_fill_cycles (arguments : List String) (host : Host) (dice : Dice)
    (script : List Pass) {settings : Settings}
    (accepted : Settings.ofArguments arguments = .ok settings) :
    let session := ofArguments arguments host dice script
    let stages := stages arguments host dice script
    let hurries (place : Nat) : Bool :=
      Event.holds Keycode.space (Stage.events (stages.take (place + 1)))
    stages.map Stage.report = session.reports ∧
    (∀ place stage, stages[place]? = some stage →
      let heard := (stage.before.listen stage.input).player
      (script ++ [Pass.last])[place]? = some stage.input ∧
      (stage.report.activity.goesOn →
        stage.report.slept =
          (if hurries place then 0 else settings.cycle - stage.input.advance) ∧
        (0 < stage.report.slept ↔
          hurries place = false ∧ stage.input.advance < settings.cycle) ∧
        heard.turn.1.buzz.1.pause? settings.cycle = some stage.report.slept) ∧
      (stage.report.activity.stepsOn →
        ∃ last, heard.stepOn.1.CountsDown stage.report.ticks last)) ∧
    session.player.clock = total (stages.mapIdx fun place (stage : Stage) =>
      if stage.report.activity.goesOn ∧ hurries place = false then
        max stage.input.advance settings.cycle
      else if stage.report.activity.hears then stage.input.advance
      else 0) ∧
    session.sleeps = (stages.mapIdx fun place (stage : Stage) =>
      if stage.report.activity.goesOn ∧ hurries place = false then
        settings.cycle - stage.input.advance
      else 0).filter (0 < ·) := by
  intro session stages hurries
  have paused : ∀ place stage, stages[place]? = some stage → stage.report.slept =
      if stage.report.activity.goesOn ∧ hurries place = false then
        settings.cycle - stage.input.advance
      else 0 := by
    intro place stage found
    by_cases on : stage.report.activity.goesOn
    · rw [slept_eq accepted found on]
      change (if hurries place then 0 else _) = _
      cases hurries place <;> simp [on]
    · have ends : stage.report.activity.goesOn = false := Bool.eq_false_of_not_eq_true on
      rw [slept_of_last found ends]
      simp [on]
  refine ⟨stages_report arguments host dice script, ?_, ?_, ?_⟩
  · intro place stage found heard
    refine ⟨input_stage found, ?_, ?_⟩
    · intro on
      refine ⟨slept_eq accepted found on, ?_, pause?_stage accepted found on⟩
      rw [paused place stage found]
      cases hurries place with
      | true => simp
      | false =>
        rw [if_pos ⟨on, rfl⟩]
        exact Nat.sub_pos_iff_lt.trans (and_iff_right rfl).symm
    · intro on
      obtain ⟨last, counts, -⟩ := exists_countsDown found on
      exact ⟨last, counts⟩
  · rw [clock_eq_spent]
    refine congrArg total (map_eq_mapIdx ?_)
    intro place stage found
    rw [paused place stage found]
    -- An advance and what it leaves of a cycle make up the longer of the two.
    split
    next whole =>
      rw [Stage.advance_of_hears (Activity.hears_of_goesOn whole.1)]
      omega
    next short => rfl
  · have slept := map_eq_mapIdx paused
    change (session.reports.map Report.slept).filter _ = _
    rw [← stages_report arguments host dice script, List.map_map]
    exact congrArg (List.filter _) slept

/-- One pass is too slow, one hurries, one takes a state back and the last is cut short. -/
theorem pauses_fill_cycles_hurried :
    let host := Host.ofFile "rom.ch8" [0x12, 0x00]
    let script : List Pass := [⟨3, [], .plain⟩, ⟨5000000, [], .plain⟩,
      ⟨7, [.key Keycode.space true], .plain⟩,
      ⟨0, [.key Keycode.space false, .key Keycode.escape true], .plain⟩, ⟨11, [.quit], .plain⟩]
    let session := ofArguments ["--speed", "1000", "rom.ch8"] host (Dice.ofList []) script
    Settings.ofArguments ["--speed", "1000", "rom.ch8"] = .ok ⟨"rom.ch8", 10, 1000000⟩ ∧
      session.player.clock = 1000000 + 5000000 + 7 + 1000000 + 11 ∧
      session.sleeps = [999997, 1000000] := by
  intro host script session
  have accepted : Settings.ofArguments ["--speed", "1000", "rom.ch8"] =
      .ok ⟨"rom.ch8", 10, 1000000⟩ := by
    decide +kernel
  obtain ⟨-, -, clock, sleeps⟩ := pauses_fill_cycles _ host (Dice.ofList []) script accepted
  exact ⟨accepted, clock.trans (by decide +kernel), sleeps.trans (by decide +kernel)⟩

end Session

end Chip8
