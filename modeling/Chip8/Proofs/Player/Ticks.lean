import Chip8.Proofs.Player.Clockwork

/-!
# Timers keep time

A pass catches up on the ticks that are due since the last one, and the time of the last tick moves
on by whole periods. So what is left of a period at the end of a pass is not lost but counts for the
next, and the ticks of many passes are those of one that takes as long. Only taking a state back
starts a new count.

## Main result

`timers_keep_time`: the ticks since a state was last taken back are the whole periods since then,
and a timer has as much left as was set less the periods since the pass before.
-/

namespace Chip8

/-- All ticks in some passes. -/
def Stage.ticks (stages : List Stage) : Nat :=
  total (stages.map fun stage => stage.report.ticks)

/-- The timers count from the cycle that was last run backwards, or else from the start. -/
def Stage.CountFrom (stages : List Stage) (origin : Nat) : Prop :=
  match stages.getLast? with
  | none => origin = 0
  | some latest => latest.report.activity.stepsBack ∧ origin = latest.time

/-- The time of the last of some passes, and zero if there is none. -/
def Stage.lastTime (stages : List Stage) : Nat :=
  (stages.getLast?.map Stage.time).getD 0

theorem Stage.ticks_append (early late : List Stage) :
    ticks (early ++ late) = ticks early + ticks late := by
  unfold ticks
  rw [List.map_append, total_append]

theorem Stage.ticks_singleton (stage : Stage) : ticks [stage] = stage.report.ticks :=
  rfl

/-- However passes are split in two, the latest is the last of the second part, unless that is
empty. -/
theorem eq_concat_of_split {α : Type} {past early late : List α} {last : α}
    (split : past ++ [last] = early ++ late) :
    (late = [] ∧ early = past ++ [last]) ∨
      ∃ rest, late = rest ++ [last] ∧ past = early ++ rest := by
  rcases late.eq_nil_or_concat with rfl | ⟨rest, latest, rfl⟩
  · exact .inl ⟨rfl, by rw [split, List.append_nil]⟩
  · rw [List.concat_eq_append, ← List.append_assoc] at split
    obtain ⟨rfl, same⟩ := List.append_inj' split rfl
    cases same
    exact .inr ⟨rest, List.concat_eq_append, rfl⟩

theorem Player.time_stage (player : Player) (cycle : Nat) (input : Pass) :
    (player.stage cycle input).time = player.clock + input.advance :=
  player.listen_clock input

/-! ### The count -/

/-- What the times of a player tell about the passes until now: all the time is accounted for, and
the last tick is so many periods after the origin of the count. -/
structure Counted (past : List Stage) (player : Player) : Prop where
  clock : player.clock = Stage.spent past
  ahead : player.lastTick ≤ player.clock
  lastTick : ∀ early late origin, past = early ++ late → Stage.CountFrom early origin →
    (∀ stage ∈ late, ¬ stage.report.activity.stepsBack) →
      player.lastTick = origin + Stage.ticks late * Player.timerPeriod

namespace Counted

theorem start (dice : Dice) (memory : Memory) :
    Counted [] (Player.start ⟨{ Machine.initial with memory }, []⟩ dice) := by
  refine ⟨rfl, Nat.le_refl _, ?_⟩
  intro early late origin split from_ forward
  obtain ⟨rfl, rfl⟩ := List.append_eq_nil_iff.mp split.symm
  -- Nothing has been counted from the start on.
  cases from_
  rfl

theorem pass {past : List Stage} {player : Player} (counted : Counted past player) (cycle : Nat)
    (input : Pass) :
    Counted (past ++ [player.stage cycle input]) (player.stage cycle input).after := by
  have keeps := (player.stage_passes cycle input).keepsTime
  have clock := (player.stage cycle input).ready_clock
  have lastTick := (player.stage cycle input).ready_lastTick
  have ahead := counted.ahead
  have time := player.time_stage cycle input
  have before : (player.stage cycle input).before = player := rfl
  have same : (player.stage cycle input).input = input := rfl
  rw [before] at clock lastTick
  generalize player.stage cycle input = stage at keeps clock lastTick time same ⊢
  constructor
  · rw [Stage.spent_concat, ← counted.clock, keeps.clock, clock, Nat.add_assoc]
  · -- No more is caught up on than has gone by.
    have whole := Nat.div_mul_le_self (stage.ready.clock - stage.ready.lastTick) Player.timerPeriod
    rw [keeps.lastTick, keeps.clock, keeps.counted]
    split
    · exact Nat.le_add_right _ _
    · split <;> omega
  · intro early late origin split from_ forward
    rcases eq_concat_of_split split with ⟨rfl, rfl⟩ | ⟨rest, rfl, rfl⟩
    · -- The count begins with this pass.
      simp only [Stage.CountFrom, List.getLast?_concat] at from_
      obtain ⟨back, origin_eq⟩ := from_
      have hears := Activity.hears_of_goesOn (Activity.goesOn_of_stepsBack back)
      rw [keeps.lastTick, if_pos back, origin_eq, time, clock, Stage.advance_of_hears hears, same]
      simp [Stage.ticks, total]
    · -- The count goes on with the ticks of this pass.
      have now := forward stage (by simp)
      have before := counted.lastTick early rest origin rfl from_ fun earlier member =>
        forward earlier (by simp [member])
      rw [keeps.lastTick, if_neg now, lastTick, before, Stage.ticks_append, Stage.ticks_singleton,
        Nat.add_mul, Nat.add_assoc]

/-- The ticks since the origin are the whole periods since then. -/
theorem ticks_eq {past early late : List Stage} {player : Player} (counted : Counted past player)
    (cycle : Nat) (input : Pass) {origin : Nat}
    (on : (player.stage cycle input).report.activity.stepsOn) (split : past = early ++ late)
    (from_ : Stage.CountFrom early origin)
    (forward : ∀ stage ∈ late, ¬ stage.report.activity.stepsBack) :
    Stage.ticks (late ++ [player.stage cycle input]) =
      ((player.stage cycle input).time - origin) / Player.timerPeriod := by
  have keeps := (player.stage_passes cycle input).keepsTime
  have hears := Activity.hears_of_goesOn (Activity.goesOn_of_stepsOn on)
  have ready := Stage.ready_of_hears hears
  have before := counted.lastTick early late origin split from_ forward
  have ahead := counted.ahead
  have period : 0 < Player.timerPeriod := by decide
  have due := keeps.counted
  rw [if_pos on, ready] at due
  change _ = ((player.listen input).player.clock - (player.listen input).player.lastTick) / _ at due
  rw [player.listen_clock, player.listen_lastTick] at due
  rw [Stage.ticks_append, Stage.ticks_singleton, due, player.time_stage]
  -- The periods until the last tick, and those from there on.
  have sum : player.clock + input.advance - origin =
      player.clock + input.advance - player.lastTick +
        Stage.ticks late * Player.timerPeriod := by
    omega
  rw [sum, Nat.add_mul_div_right _ _ period, Nat.add_comm]

end Counted

/-! ### The timers -/

inductive Timer where
  | delay | sound

namespace Timer

def reading (timer : Timer) (m : Machine) : UInt8 :=
  match timer with
  | .delay => m.delay
  | .sound => m.sound

/-- The register that an instruction sets a timer from, if it sets it. -/
def source? : Timer → Instruction → Option Nibble
  | .delay, .setDelay x | .sound, .setSound x => some x
  | _, _ => none

end Timer

/-- What a pass sets a timer to, if its instruction sets it. -/
def Stage.setting? (timer : Timer) (stage : Stage) : Option UInt8 :=
  (stage.report.activity.instruction?.bind timer.source?).map stage.ready.console.machine.register

namespace Timer

theorem reading_press (timer : Timer) (m : Machine) (key : UInt8) :
    timer.reading (m.press key).1 = timer.reading m := by
  obtain ⟨registers, pressed, awaiting, same, -⟩ := m.press_changes key
  rw [same]
  cases timer <;> rfl

theorem reading_release (timer : Timer) (m : Machine) (key : UInt8) :
    timer.reading (m.release key).1 = timer.reading m := by
  obtain ⟨pressed, same⟩ := m.release_changes key
  rw [same]
  cases timer <;> rfl

theorem reading_tick (timer : Timer) (m : Machine) (count : Nat) :
    (timer.reading (m.tick count)).toNat = (timer.reading m).toNat - count := by
  have delay := m.delay.toNat_lt
  have sound := m.sound.toNat_lt
  cases timer
  · simp only [reading, Machine.tick, UInt8.toNat_ofNat']
    omega
  · simp only [reading, Machine.tick, UInt8.toNat_ofNat']
    omega

theorem reading_outcome (timer : Timer) (m : Machine) (random : UInt8) (instruction : Instruction) :
    timer.reading ((m.outcome random instruction).resume instruction) =
      ((timer.source? instruction).map m.register).getD (timer.reading m) := by
  cases timer <;> cases instruction <;> rfl

/-- A step that is answered with an instruction sets what the instruction sets, and no other step
sets anything. -/
theorem reading_step (timer : Timer) (c : Console) (random : UInt8) :
    timer.reading (c.step random).console.machine =
      (((Answer.stepped (c.step random).answer).executed?.bind timer.source?).map
        c.machine.register).getD (timer.reading c.machine) := by
  unfold Console.step
  cases stepped : c.machine.step random with
  | error fault => rfl
  | ok result =>
    rcases result with _ | ⟨instruction, after⟩
    · rfl
    · dsimp only [Console.advance]
      rw [Machine.eq_outcome_of_step stepped]
      exact timer.reading_outcome c.machine random instruction

theorem reading_listen (timer : Timer) (player : Player) (input : Pass) :
    timer.reading (player.listen input).player.console.machine =
      timer.reading player.console.machine := by
  refine Player.hear_keeps (fun c => timer.reading c.machine = _) ?_ ?_ _ input.events ?_
  · intro c key same
    exact (timer.reading_press c.machine key).trans same
  · intro c key same
    exact (timer.reading_release c.machine key).trans same
  · change timer.reading player.present.console.machine = _
    rw [Player.present_console]
    cases timer <;> rfl

/-- A cycle that is not run backwards sets a timer if its instruction does so, and then counts the
ticks. -/
theorem reading_passes (timer : Timer) {heard after : Player} {cycle ticks slept : Nat}
    {activity : Activity} (passes : heard.Passes cycle activity ticks slept after)
    (forward : ¬ activity.stepsBack) :
    (timer.reading after.console.machine).toNat =
      (((activity.instruction?.bind timer.source?).map heard.console.machine.register).getD
        (timer.reading heard.console.machine)).toNat - ticks := by
  have set := timer.reading_step heard.console heard.dice.top
  cases passes with
  | unshown => rfl
  | quit => rfl
  | goesOn buzzing on turns =>
    cases turns with
    | on forwards answer =>
      -- The instruction comes before the ticks of its own pass, so these count already.
      change (heard.console.step heard.dice.top).answer = _ at answer
      rw [answer] at set
      change (timer.reading ((heard.console.step heard.dice.top).console.machine.tick _)).toNat = _
      rw [reading_tick, set]
      rfl
    | back backwards => exact absurd backwards forward
    | failed answer => cases on
  | failed turns =>
    cases turns with
    | on forwards answer => cases forwards
    | back backwards => cases backwards
    | failed answer =>
      change (heard.console.step heard.dice.top).answer = _ at answer
      rw [answer] at set
      exact congrArg UInt8.toNat set

theorem reading_ready (timer : Timer) (stage : Stage) :
    timer.reading stage.ready.console.machine = timer.reading stage.before.console.machine := by
  unfold Stage.ready
  split
  · exact timer.reading_listen stage.before stage.input
  · rfl

theorem reading_stage (timer : Timer) (player : Player) (cycle : Nat) (input : Pass)
    (forward : ¬ (player.stage cycle input).report.activity.stepsBack) :
    (timer.reading (player.stage cycle input).after.console.machine).toNat =
      (((player.stage cycle input).setting? timer).getD
        (timer.reading player.console.machine)).toNat -
          (player.stage cycle input).report.ticks := by
  have same : timer.reading (player.stage cycle input).ready.console.machine = _ :=
    timer.reading_ready (player.stage cycle input)
  change _ = timer.reading player.console.machine at same
  rw [← same]
  exact timer.reading_passes (player.stage_passes cycle input) forward

/-! ### What is left -/

/-- What is known of a timer after some passes, none of which ran backwards: it was never set and is
at zero, or it has as much left as it was last set to less the ticks from then on. -/
structure Left (timer : Timer) (past : List Stage) (player : Player) : Prop where
  unset : (∀ stage ∈ past, ¬ stage.report.activity.stepsBack) →
    (∀ stage ∈ past, stage.setting? timer = none) → timer.reading player.console.machine = 0
  set : (∀ stage ∈ past, ¬ stage.report.activity.stepsBack) →
    ∀ early setting late value, past = early ++ setting :: late →
      setting.setting? timer = some value → (∀ stage ∈ late, stage.setting? timer = none) →
        (timer.reading player.console.machine).toNat =
          value.toNat - Stage.ticks (setting :: late)

theorem Left.start (timer : Timer) (dice : Dice) (memory : Memory) :
    timer.Left [] (Player.start ⟨{ Machine.initial with memory }, []⟩ dice) := by
  constructor
  · intro _ _
    cases timer <;> rfl
  · intro _ early setting late value split
    simp at split

theorem Left.pass {timer : Timer} {past : List Stage} {player : Player}
    (left : timer.Left past player) (cycle : Nat) (input : Pass) :
    timer.Left (past ++ [player.stage cycle input]) (player.stage cycle input).after := by
  have reading := timer.reading_stage player cycle input
  generalize player.stage cycle input = stage at reading ⊢
  constructor
  · intro forward unset
    have before := left.unset (fun earlier member => forward earlier (by simp [member]))
      fun earlier member => unset earlier (by simp [member])
    have after := reading (forward stage (by simp))
    rw [unset stage (by simp), before] at after
    have zero : (0 : UInt8).toNat = 0 := rfl
    rw [Option.getD_none, zero, Nat.zero_sub] at after
    exact UInt8.toNat_inj.mp after
  · intro forward early setting late value split set silent
    have after := reading (forward stage (by simp))
    have apart := split.trans (List.append_cons early setting late)
    rcases eq_concat_of_split apart with ⟨rfl, same⟩ | ⟨rest, rfl, rfl⟩
    · -- This is the pass that sets the timer.
      obtain ⟨-, latest⟩ := List.append_inj' same rfl
      cases latest
      rw [set, Option.getD_some] at after
      rw [after, Stage.ticks_singleton]
    · have before := left.set
        (fun earlier member => forward earlier (List.mem_append_left _ member))
        early setting rest value (List.append_cons _ _ _).symm set fun later member =>
          silent later (by simp [member])
      rw [silent stage (by simp), Option.getD_none, before] at after
      rw [after, ← List.cons_append, Stage.ticks_append, Stage.ticks_singleton, Nat.sub_sub]

end Timer

namespace Session

theorem counted {arguments : List String} {host : Host} {dice : Dice} {script : List Pass}
    {place : Nat} {stage : Stage}
    (found : (stages arguments host dice script)[place]? = some stage) :
    Counted ((stages arguments host dice script).take place) stage.before ∧
      ∃ cycle, stage = stage.before.stage cycle stage.input :=
  stages_keep Counted (Counted.start dice)
    (fun cycle _ _ input _ counted => counted.pass cycle input) found

/-- The ticks of a pass are made one by one, by a loop that never looks at a negative time. -/
theorem exists_countsDown {arguments : List String} {host : Host} {dice : Dice}
    {script : List Pass} {place : Nat} {stage : Stage}
    (found : (stages arguments host dice script)[place]? = some stage)
    (on : stage.report.activity.stepsOn) :
    ∃ last, (stage.before.listen stage.input).player.stepOn.1.CountsDown stage.report.ticks last ∧
      stage.after.console = last.console := by
  obtain ⟨before, cycle, same⟩ := counted found
  have passes := Player.passes_of_goesOn same (Activity.goesOn_of_stepsOn on)
  obtain ⟨console, ticks⟩ := passes.stepsOn on
  have ahead : (stage.before.listen stage.input).player.lastTick ≤
      (stage.before.listen stage.input).player.clock := by
    rw [stage.before.listen_clock, stage.before.listen_lastTick]
    exact Nat.le_trans before.ahead (Nat.le_add_right _ _)
  rw [ticks]
  exact ⟨_, Player.catchUp_countsDown ahead, console⟩

/-- As long as no state is taken back, all ticks are the periods since the start. -/
theorem ticks_eq_time {arguments : List String} {host : Host} {dice : Dice}
    {script : List Pass} {place : Nat} {stage : Stage}
    (found : (stages arguments host dice script)[place]? = some stage)
    (on : stage.report.activity.stepsOn)
    (forward : ∀ earlier ∈ (stages arguments host dice script).take place,
      ¬ earlier.report.activity.stepsBack) :
    Stage.ticks ((stages arguments host dice script).take place ++ [stage]) =
      stage.time / Player.timerPeriod := by
  obtain ⟨before, cycle, same⟩ := counted found
  rw [same] at on ⊢
  exact before.ticks_eq cycle stage.input on (List.nil_append _).symm rfl forward

/-- The same up to any pass that another one follows. -/
theorem ticks_eq_lastTime {arguments : List String} {host : Host} {dice : Dice}
    {script : List Pass} {place : Nat} {stage : Stage}
    (found : (stages arguments host dice script)[place]? = some stage)
    (forward : ∀ earlier ∈ (stages arguments host dice script).take place,
      ¬ earlier.report.activity.stepsBack) {early : List Stage}
    (first : early <+: (stages arguments host dice script).take place) :
    Stage.ticks early = Stage.lastTime early / Player.timerPeriod := by
  have goesOn := goesOn_of_mem_take found
  rcases early.eq_nil_or_concat with rfl | ⟨past, last, rfl⟩
  · exact (Nat.zero_div _).symm
  · rw [List.concat_eq_append] at first ⊢
    obtain ⟨rest, split⟩ := first
    rw [← split] at forward goesOn
    have all : stages arguments host dice script =
        past ++ last :: (rest ++ (stages arguments host dice script).drop place) := by
      rw [← List.singleton_append, ← List.append_assoc, ← List.append_assoc, split,
        List.take_append_drop]
    have there : (stages arguments host dice script)[past.length]? = some last := by
      rw [all]
      simp
    have before : (stages arguments host dice script).take past.length = past := by
      rw [all]
      simp
    -- Another pass follows the last of these, so that one was not cut short.
    have ticks := ticks_eq_time there
      (Activity.stepsOn_of_goesOn (goesOn last (by simp)) (forward last (by simp))) (by
        rw [before]
        exact fun earlier member => forward earlier (by simp [member]))
    rw [before] at ticks
    rw [ticks, Stage.lastTime, List.getLast?_concat]
    rfl

/-- The ticks since a state was last taken back, or since the start, are the whole periods since
then, however the time was cut into passes. A timer that was never set is at zero. Otherwise it has
as much left as it was last set to, less the periods since the pass before that one. -/
theorem timers_keep_time (arguments : List String) (host : Host) (dice : Dice)
    (script : List Pass) :
    let stages := stages arguments host dice script
    stages.map Stage.report = (ofArguments arguments host dice script).reports ∧
    ∀ place stage, stages[place]? = some stage →
      let past := stages.take place
      let heard := (stage.before.listen stage.input).player
      let period := 16666666
      (script ++ [Pass.last])[place]? = some stage.input ∧
      stage.time = Stage.spent past + stage.input.advance ∧
      (stage.report.activity.stepsBack →
        stage.report.ticks = 0 ∧ stage.after.console = heard.console.rewind) ∧
      (stage.report.activity.stepsOn →
        (∃ last, heard.stepOn.1.CountsDown stage.report.ticks last ∧
          stage.after.console = last.console) ∧
        (∀ early late origin, past = early ++ late → Stage.CountFrom early origin →
          (∀ later ∈ late, ¬ later.report.activity.stepsBack) →
            Stage.ticks (late ++ [stage]) = (stage.time - origin) / period) ∧
        ((∀ earlier ∈ past, ¬ earlier.report.activity.stepsBack) → ∀ timer : Timer,
          ((∀ earlier ∈ past ++ [stage], earlier.setting? timer = none) →
            timer.reading stage.after.console.machine = 0) ∧
          ∀ early setting late value, past ++ [stage] = early ++ setting :: late →
            setting.setting? timer = some value →
              (∀ later ∈ late, later.setting? timer = none) →
                (timer.reading stage.after.console.machine).toNat =
                  value.toNat - (stage.time / period - Stage.lastTime early / period))) := by
  intro stages
  refine ⟨stages_report arguments host dice script, ?_⟩
  intro place stage found past heard period
  obtain ⟨before, cycle, same⟩ := counted found
  refine ⟨input_stage found, ?_, ?_, ?_⟩
  · rw [Stage.time, stage.before.listen_clock, before.clock]
  · intro back
    have passes := Player.passes_of_goesOn same (Activity.goesOn_of_stepsBack back)
    obtain ⟨console, none⟩ := passes.stepsBack back
    exact ⟨none, console⟩
  · intro on
    refine ⟨?_, ?_, ?_⟩
    · exact exists_countsDown found on
    · intro early late origin split from_ forward
      have ticks := before.ticks_eq cycle stage.input (same ▸ on) split from_ forward
      rw [← same] at ticks
      exact ticks
    · intro forward timer
      have all : ∀ earlier ∈ past ++ [stage], ¬ earlier.report.activity.stepsBack := by
        intro earlier member
        rcases List.mem_append.mp member with inPast | here
        · exact forward earlier inPast
        · rw [List.mem_singleton.mp here]
          exact Activity.not_stepsBack_of_stepsOn on
      obtain ⟨known, -⟩ := stages_keep timer.Left (Timer.Left.start timer dice)
        (fun cycle _ _ input _ left => left.pass cycle input) found
      have left := known.pass cycle stage.input
      rw [← same] at left
      refine ⟨left.unset all, ?_⟩
      intro early setting late value split set silent
      -- The ticks from the setting on are all ticks less those before it.
      have total := ticks_eq_time found on forward
      have first : early <+: past := by
        refine List.prefix_of_prefix_length_le ⟨_, split.symm⟩ ⟨_, rfl⟩ ?_
        have length := congrArg List.length split
        simp only [List.length_append, List.length_cons, List.length_nil] at length
        omega
      have before := ticks_eq_lastTime found forward first
      change Stage.ticks (past ++ [stage]) = _ at total
      rw [split, Stage.ticks_append, before] at total
      rw [left.set all early setting late value split set silent]
      change _ = value.toNat - (stage.time / Player.timerPeriod -
        Stage.lastTime early / Player.timerPeriod)
      rw [← total, Nat.add_sub_cancel_left]

/-- A program sets the delay and waits for a key, with time going by unevenly. The wait is taken
back and begins again. -/
theorem timers_keep_time_waiting :
    let host := Host.ofFile "rom.ch8" [0x60, 0x0A, 0xF0, 0x15, 0xF1, 0x0A]
    let script : List Pass := [⟨0, [], .plain⟩, ⟨20000000, [], .plain⟩, ⟨0, [], .plain⟩,
      ⟨30000000, [], .plain⟩, ⟨0, [.key Keycode.escape true], .plain⟩,
      ⟨40000000, [.key Keycode.escape false], .plain⟩]
    let stages := stages ["rom.ch8"] host (Dice.ofList []) script
    (∃ waiting, stages[3]? = some waiting ∧ waiting.report.activity = .waited ∧
      waiting.time = 54000000 ∧
      waiting.after.console.machine.delay.toNat = 10 - (54000000 / 16666666 - 0 / 16666666)) ∧
    ∃ back again, stages[4]? = some back ∧ back.report.activity = .steppedBack ∧
      back.report.ticks = 0 ∧ stages[5]? = some again ∧
      Stage.ticks [again] = (96000000 - 54000000) / 16666666 := by
  intro host script
  have facts : (stages ["rom.ch8"] host (Dice.ofList []) script).map
        (fun stage => (stage.report.activity, stage.time)) =
          [(.executed (.setByte 0 10), 0), (.executed (.setDelay 0), 22000000),
            (.executed (.awaitKey 1), 22000000), (.waited, 54000000), (.steppedBack, 54000000),
            (.executed (.awaitKey 1), 96000000), (.quit, 96000000)] ∧
      (stages ["rom.ch8"] host (Dice.ofList []) script).map (Stage.setting? .delay) =
        [none, some 10, none, none, none, none, none] := by
    decide +kernel
  obtain ⟨-, law⟩ := timers_keep_time ["rom.ch8"] host (Dice.ofList []) script
  generalize stages ["rom.ch8"] host (Dice.ofList []) script = stages at facts law
  obtain ⟨passes, settings⟩ := facts
  simp only [List.map_eq_cons_iff, Prod.mk.injEq] at passes
  obtain ⟨first, _, rfl, ⟨did0, time0⟩, second, _, rfl, ⟨did1, -⟩, third, _, rfl, ⟨did2, -⟩,
    fourth, _, rfl, ⟨did3, time3⟩, fifth, _, rfl, ⟨did4, time4⟩, sixth, _, rfl, ⟨did5, time5⟩, -⟩ :=
      passes
  simp only [List.map_cons, List.cons.injEq] at settings
  obtain ⟨-, set, unset2, unset3, -⟩ := settings
  refine ⟨⟨fourth, rfl, did3, time3, ?_⟩, fifth, sixth, rfl, did4, ?_, rfl, ?_⟩
  · obtain ⟨-, -, -, counts⟩ := law 3 fourth rfl
    obtain ⟨-, -, timers⟩ := counts (by rw [did3]; rfl)
    have left := (timers (by simp [did0, did1, did2, Activity.stepsBack]) .delay).2
      [first] second [third, fourth] 10 rfl set (by simp [unset2, unset3])
    rw [time3, Stage.lastTime, List.getLast?_singleton, Option.map_some, time0] at left
    exact left
  · exact ((law 4 fifth rfl).2.2.1 (by rw [did4]; rfl)).1
  · obtain ⟨-, -, -, counts⟩ := law 5 sixth rfl
    obtain ⟨-, count, -⟩ := counts (by rw [did5]; rfl)
    have from_ : Stage.CountFrom [first, second, third, fourth, fifth] fifth.time := by
      simp [Stage.CountFrom, did4, Activity.stepsBack]
    have ticks := count [first, second, third, fourth, fifth] [] fifth.time rfl from_ (by simp)
    rw [time4, time5] at ticks
    exact ticks

end Session

end Chip8
