import Chip8.Proofs.Player.Stages

/-!
# The clockwork of a player

A player keeps three times: what the clock shows, when the last cycle ended, and up to when the
timers have counted. Only the start of a pass, its cycle and its pause change them, and how they do
is said here once: `stage_passes` lists what a pass can come to, and `Passes.keepsTime` gives the
times after it. Everything about ticks and pauses follows from these equations.

The timers are counted down by a loop, and a pause is the difference of two durations. Both are also
given as they are carried out, one tick at a time and with every difference checked, and agree with
the player as long as no time that it keeps lies ahead of the clock.
-/

namespace Chip8

namespace Activity

/-- Whether a cycle was run forwards, be it to wait for a key. -/
def stepsOn : Activity → Bool
  | .executed _ | .waited => true
  | _ => false

/-- Whether a cycle was run backwards, be it at the very beginning. -/
def stepsBack : Activity → Bool
  | .steppedBack | .atBeginning => true
  | _ => false

/-- The instruction that was executed, if there was one. -/
def instruction? : Activity → Option Instruction
  | .executed instruction => some instruction
  | _ => none

theorem goesOn_eq (activity : Activity) :
    activity.goesOn = (activity.stepsOn || activity.stepsBack) := by
  cases activity <;> rfl

theorem stepsOn_of_goesOn {activity : Activity} (on : activity.goesOn)
    (forward : ¬ activity.stepsBack) : activity.stepsOn := by
  simpa [goesOn_eq, forward] using on

theorem goesOn_of_stepsOn {activity : Activity} (on : activity.stepsOn) : activity.goesOn := by
  rw [goesOn_eq, on, Bool.true_or]

theorem goesOn_of_stepsBack {activity : Activity} (back : activity.stepsBack) :
    activity.goesOn := by
  rw [goesOn_eq, back, Bool.or_true]

theorem not_stepsBack_of_stepsOn {activity : Activity} (on : activity.stepsOn) :
    ¬ activity.stepsBack := by
  cases activity with
  | steppedBack | atBeginning => cases on
  | _ => exact Bool.false_ne_true

end Activity

/-- When the cycle of a pass is run: its events have been heard by then. -/
def Stage.time (stage : Stage) : Nat :=
  (stage.before.listen stage.input).player.clock

/-- The player once the events of a pass are heard, if the pass comes to them. -/
def Stage.ready (stage : Stage) : Player :=
  if stage.report.activity.hears then (stage.before.listen stage.input).player else stage.before

/-- The time that goes by before the events of a pass, if the pass comes to them. -/
def Stage.advance (stage : Stage) : Nat :=
  if stage.report.activity.hears then stage.input.advance else 0

/-- Amounts added up, of time or of ticks. -/
def total (amounts : List Nat) : Nat :=
  amounts.foldr (· + ·) 0

theorem total_append (early late : List Nat) :
    total (early ++ late) = total early + total late := by
  induction early with
  | nil => exact (Nat.zero_add _).symm
  | cons first rest ih =>
    change first + total (rest ++ late) = first + total rest + total late
    rw [ih, Nat.add_assoc]

/-- All the time that has gone by in some passes. -/
def Stage.spent (stages : List Stage) : Nat :=
  total (stages.map fun stage => stage.advance + stage.report.slept)

theorem Stage.spent_concat (past : List Stage) (stage : Stage) :
    spent (past ++ [stage]) = spent past + (stage.advance + stage.report.slept) := by
  unfold spent
  rw [List.map_append, total_append]
  rfl

/-- Whether an event puts a key of the keyboard down, or lets it go. -/
def Event.switch? (code : Keycode) : Event → Option Bool
  | .key changed isDown => if changed = code then some isDown else none
  | _ => none

/-- Whether a key of the keyboard is held after some events: the latest about it put it down. -/
def Event.holds (code : Keycode) (events : List Event) : Bool :=
  ((events.filterMap (switch? code)).getLast?).getD false

theorem Event.holds_append (code : Keycode) (early late : List Event) :
    holds code (early ++ late) =
      ((late.filterMap (switch? code)).getLast?).getD (holds code early) := by
  unfold holds
  rw [List.filterMap_append, List.getLast?_append]
  cases (late.filterMap (switch? code)).getLast? <;> rfl

namespace Player

/-! ### What is heard -/

/-- The clock, the end of the last cycle and the time up to which the timers have counted. -/
def times (player : Player) : Nat × Nat × Nat :=
  (player.clock, player.lastCycle, player.lastTick)

/-- A key concerns the console or one of the two switches. -/
theorem key_changes (player : Player) (code : Keycode) (isDown : Bool) :
    ∃ console fastForward rewinding,
      (player.key code isDown).1 = { player with console, fastForward, rewinding } := by
  unfold key
  cases Keypad.key? code with
  | some digit => exact ⟨_, _, _, rfl⟩
  | none =>
    dsimp only
    split
    · exact ⟨_, _, _, rfl⟩
    · split
      · exact ⟨_, _, _, rfl⟩
      · exact ⟨_, _, _, rfl⟩

theorem hear_changes (player : Player) (events : List Event) :
    ∃ console fastForward rewinding,
      (player.hear events).player = { player with console, fastForward, rewinding } := by
  induction events generalizing player with
  | nil => exact ⟨_, _, _, rfl⟩
  | cons event rest ih =>
    cases event with
    | quit => exact ⟨_, _, _, rfl⟩
    | other => exact ih player
    | key code isDown =>
      obtain ⟨first, fast, back, same⟩ := player.key_changes code isDown
      obtain ⟨console, fastForward, rewinding, later⟩ := ih (player.key code isDown).1
      refine ⟨console, fastForward, rewinding, later.trans ?_⟩
      rw [same]

theorem present_eq (player : Player) :
    player.present = { player with console := player.console.markShown } := by
  have console := player.present_console
  unfold present at console ⊢
  split at console
  next shown => rw [← console]
  next screen due => rfl

/-- Time goes by before the events of a pass, and not while they are heard. -/
theorem listen_changes (player : Player) (input : Pass) :
    ∃ console fastForward rewinding, (player.listen input).player =
      { player with clock := player.clock + input.advance, console, fastForward, rewinding } := by
  obtain ⟨console, fastForward, rewinding, heard⟩ :=
    (player.present.wait input.advance).hear_changes input.events
  refine ⟨console, fastForward, rewinding, heard.trans ?_⟩
  rw [present_eq]
  rfl

theorem listen_times (player : Player) (input : Pass) :
    (player.listen input).player.times =
      (player.clock + input.advance, player.lastCycle, player.lastTick) := by
  obtain ⟨console, fastForward, rewinding, heard⟩ := player.listen_changes input
  rw [heard]
  rfl

theorem listen_clock (player : Player) (input : Pass) :
    (player.listen input).player.clock = player.clock + input.advance :=
  congrArg Prod.fst (player.listen_times input)

theorem listen_lastCycle (player : Player) (input : Pass) :
    (player.listen input).player.lastCycle = player.lastCycle :=
  congrArg (fun times => times.2.1) (player.listen_times input)

theorem listen_lastTick (player : Player) (input : Pass) :
    (player.listen input).player.lastTick = player.lastTick :=
  congrArg (fun times => times.2.2) (player.listen_times input)

theorem key_fastForward (player : Player) (code : Keycode) (isDown : Bool) :
    (player.key code isDown).1.fastForward =
      ((Event.key code isDown).switch? Keycode.space).getD player.fastForward := by
  by_cases pace : code = Keycode.space
  · rw [pace, key_space]
    rfl
  · have unchanged : (Event.key code isDown).switch? Keycode.space = none := if_neg pace
    rw [unchanged]
    unfold key
    cases Keypad.key? code with
    | some digit => rfl
    | none =>
      dsimp only
      rw [if_neg pace]
      split <;> rfl

theorem hear_fastForward (player : Player) (events : List Event) :
    (player.hear events).player.fastForward =
      (((events.takeWhile (· ≠ .quit)).filterMap (Event.switch? Keycode.space)).getLast?).getD
        player.fastForward := by
  induction events generalizing player with
  | nil => rfl
  | cons event rest ih =>
    cases event with
    | quit => rfl
    | other => simpa [hear, Event.switch?] using ih player
    | key code isDown =>
      have later := ih (player.key code isDown).1
      rw [key_fastForward] at later
      refine later.trans ?_
      -- An event about the pace counts until a later one does.
      cases change : (Event.key code isDown).switch? Keycode.space with
      | none => simp [change]
      | some hurried => simp [change, List.getLast?_cons]

/-- The pace follows the events of a pass. -/
theorem listen_fastForward (player : Player) (input : Pass) (events : List Event)
    (before : player.fastForward = Event.holds Keycode.space events) :
    (player.listen input).player.fastForward =
      Event.holds Keycode.space (events ++ input.heard) := by
  unfold listen
  rw [hear_fastForward, Event.holds_append, ← before, present_eq]
  rfl

end Player

namespace Stage

theorem ready_of_hears {stage : Stage} (hears : stage.report.activity.hears) :
    stage.ready = (stage.before.listen stage.input).player :=
  if_pos hears

theorem advance_of_hears {stage : Stage} (hears : stage.report.activity.hears) :
    stage.advance = stage.input.advance :=
  if_pos hears

theorem ready_times (stage : Stage) :
    stage.ready.times =
      (stage.before.clock + stage.advance, stage.before.lastCycle, stage.before.lastTick) := by
  unfold ready advance
  split
  · exact stage.before.listen_times stage.input
  · rfl

theorem ready_clock (stage : Stage) : stage.ready.clock = stage.before.clock + stage.advance :=
  congrArg Prod.fst stage.ready_times

theorem ready_lastTick (stage : Stage) : stage.ready.lastTick = stage.before.lastTick :=
  congrArg (fun times => times.2.2) stage.ready_times

/-- The pace follows the events that are heard. -/
theorem ready_fastForward (stage : Stage) (events : List Event)
    (before : stage.before.fastForward = Event.holds Keycode.space events) :
    stage.ready.fastForward = Event.holds Keycode.space (events ++ stage.heard) := by
  unfold ready heard
  split
  · exact stage.before.listen_fastForward stage.input events before
  · rw [List.append_nil]
    exact before

end Stage

namespace Player

/-! ### What is done -/

/-- A cycle is run forwards and the timers catch up, it is run backwards, or it fails. The player
after it is given with the number of ticks. -/
inductive Turns (player : Player) : Activity → Player → Nat → Prop
  | on {activity : Activity} (on : activity.stepsOn)
      (answer : player.stepOn.2.1 = .ok activity.instruction?) :
      Turns player activity player.stepOn.1.catchUp player.stepOn.1.ticksDue
  | back {activity : Activity} (back : activity.stepsBack) :
      Turns player activity player.stepBack 0
  | failed {fault : Fault} (answer : player.stepOn.2.1 = .error fault) :
      Turns player (.failed fault) player.stepOn.1 0

theorem turn_turns (player : Player) :
    player.Turns player.turn.2.1 player.turn.1 player.turn.2.2.1 := by
  unfold turn
  split
  next backwards =>
    split
    · exact .back rfl
    · exact .back rfl
  next forwards =>
    -- The three answers of a step are the three activities of a cycle that is run forwards.
    rcases stepped : player.stepOn with ⟨after, fault | _ | instruction, records⟩
    · have failed : player.Turns (.failed fault) player.stepOn.1 0 := .failed (by rw [stepped])
      rwa [stepped] at failed
    · have waited : player.Turns .waited player.stepOn.1.catchUp player.stepOn.1.ticksDue :=
        .on rfl (by rw [stepped]; rfl)
      rwa [stepped] at waited
    · have executed : player.Turns (.executed instruction) player.stepOn.1.catchUp
          player.stepOn.1.ticksDue := .on rfl (by rw [stepped]; rfl)
      rwa [stepped] at executed

theorem buzz_eq (player : Player) : ∃ buzzing, player.buzz.1 = { player with buzzing } := by
  unfold buzz
  split
  · exact ⟨player.buzzing, rfl⟩
  · exact ⟨!player.buzzing, rfl⟩

/-- What becomes of a player that is ready: it has not shown its frame and stops, it quits, it runs
a cycle, sees to the buzzer and pauses, or its cycle fails. -/
inductive Passes (heard : Player) (cycle : Nat) : Activity → (ticks slept : Nat) → Player → Prop
  | unshown (reason : String) : Passes heard cycle (.unshown reason) 0 0 heard
  | quit : Passes heard cycle .quit 0 0 heard
  | goesOn {activity : Activity} {turned : Player} {ticks : Nat} (buzzing : Bool)
      (on : activity.goesOn) (turns : heard.Turns activity turned ticks) :
      Passes heard cycle activity ticks (pause { turned with buzzing } cycle)
        (rest { turned with buzzing } cycle)
  | failed {fault : Fault} {turned : Player} {ticks : Nat}
      (turns : heard.Turns (.failed fault) turned ticks) :
      Passes heard cycle (.failed fault) 0 0 turned

theorem stage_passes (player : Player) (cycle : Nat) (input : Pass) :
    let stage := player.stage cycle input
    stage.ready.Passes cycle stage.report.activity stage.report.ticks stage.report.slept
      stage.after := by
  have comes := player.pass_comes cycle input
  have turns := (player.listen input).player.turn_turns
  unfold stage Stage.ready
  dsimp only
  generalize player.pass cycle input = done at comes ⊢
  cases comes with
  | unshown => exact .unshown _
  | quit => exact .quit
  | @goesOn frame turned activity ticks told renders stays turn on =>
    obtain ⟨buzzing, buzzed⟩ := turned.buzz_eq
    rw [turn] at turns
    rw [if_pos (hears_of_turn turn), buzzed]
    exact .goesOn buzzing on turns
  | @ends frame turned activity ticks told renders stays turn off =>
    rw [turn] at turns
    rw [if_pos (hears_of_turn turn)]
    -- A cycle that is the last has failed.
    cases turns with
    | on on answer => simp [Activity.goesOn_eq, on] at off
    | back back => simp [Activity.goesOn_eq, back] at off
    | failed answer => exact .failed (.failed answer)

/-- The same of a stage that is known to be one. -/
theorem passes_of_eq {stage : Stage} {cycle : Nat}
    (same : stage = stage.before.stage cycle stage.input) :
    stage.ready.Passes cycle stage.report.activity stage.report.ticks stage.report.slept
      stage.after := by
  have passes := stage.before.stage_passes cycle stage.input
  rwa [← same] at passes

/-- A pass that goes on has heard its events. -/
theorem passes_of_goesOn {stage : Stage} {cycle : Nat}
    (same : stage = stage.before.stage cycle stage.input) (on : stage.report.activity.goesOn) :
    (stage.before.listen stage.input).player.Passes cycle stage.report.activity
      stage.report.ticks stage.report.slept stage.after := by
  rw [← Stage.ready_of_hears (Activity.hears_of_goesOn on)]
  exact passes_of_eq same

/-- The times that a player keeps after a pass, in terms of those when it was ready. -/
structure KeepsTime (heard : Player) (cycle : Nat) (activity : Activity) (ticks slept : Nat)
    (after : Player) : Prop where
  clock : after.clock = heard.clock + slept
  lastCycle : activity.goesOn → after.lastCycle = after.clock
  counted : ticks = if activity.stepsOn then (heard.clock - heard.lastTick) / timerPeriod else 0
  lastTick : after.lastTick =
    if activity.stepsBack then heard.clock else heard.lastTick + ticks * timerPeriod
  paused : activity.goesOn →
    slept = if heard.fastForward then 0 else cycle - (heard.clock - heard.lastCycle)
  idle : activity.goesOn = false → slept = 0
  fastForward : after.fastForward = heard.fastForward

theorem Passes.keepsTime {heard after : Player} {cycle ticks slept : Nat} {activity : Activity}
    (passes : heard.Passes cycle activity ticks slept after) :
    heard.KeepsTime cycle activity ticks slept after := by
  have idle : heard.lastTick = heard.lastTick + 0 * timerPeriod := by
    rw [Nat.zero_mul, Nat.add_zero]
  cases passes with
  | unshown reason => exact ⟨rfl, nofun, rfl, idle, nofun, fun _ => rfl, rfl⟩
  | quit => exact ⟨rfl, nofun, rfl, idle, nofun, fun _ => rfl, rfl⟩
  | failed turns =>
    cases turns with
    | on on => cases on
    | back back => cases back
    | failed answer => exact ⟨rfl, nofun, rfl, idle, nofun, fun _ => rfl, rfl⟩
  | goesOn buzzing on turns =>
    -- Neither the instruction nor the buzzer touches the clockwork.
    cases turns with
    | on forwards answer =>
      refine ⟨rfl, fun _ => rfl, (if_pos forwards).symm, ?_, fun _ => rfl, by simp [on], rfl⟩
      rw [if_neg (Activity.not_stepsBack_of_stepsOn forwards)]
      rfl
    | back backwards =>
      refine ⟨rfl, fun _ => rfl, ?_, (if_pos backwards).symm, fun _ => rfl, by simp [on], rfl⟩
      rw [if_neg fun forwards => Activity.not_stepsBack_of_stepsOn forwards backwards]
    | failed answer => cases on

theorem Passes.stepsOn {heard after : Player} {cycle ticks slept : Nat} {activity : Activity}
    (passes : heard.Passes cycle activity ticks slept after) (on : activity.stepsOn) :
    after.console = heard.stepOn.1.catchUp.console ∧ ticks = heard.stepOn.1.ticksDue := by
  cases passes with
  | unshown => cases on
  | quit => cases on
  | failed => cases on
  | goesOn buzzing goes turns =>
    cases turns with
    | on forwards answer => exact ⟨rfl, rfl⟩
    | back backwards => exact absurd backwards (Activity.not_stepsBack_of_stepsOn on)
    | failed answer => cases on

theorem Passes.stepsBack {heard after : Player} {cycle ticks slept : Nat} {activity : Activity}
    (passes : heard.Passes cycle activity ticks slept after) (back : activity.stepsBack) :
    after.console = heard.console.rewind ∧ ticks = 0 := by
  cases passes with
  | unshown => cases back
  | quit => cases back
  | failed => cases back
  | goesOn buzzing goes turns =>
    cases turns with
    | on forwards answer => exact absurd back (Activity.not_stepsBack_of_stepsOn forwards)
    | back backwards => exact ⟨rfl, rfl⟩
    | failed answer => cases back

end Player

/-! ### Loops and differences as they are carried out -/

namespace Machine

theorem tick_zero (m : Machine) : m.tick 0 = m := by
  simp [tick]

theorem tick_tick (m : Machine) (first second : Nat) :
    (m.tick first).tick second = m.tick (first + second) := by
  have delay := m.delay.toNat_lt
  have sound := m.sound.toNat_lt
  unfold tick
  simp only [UInt8.toNat_ofNat']
  congr 2 <;> omega

end Machine

namespace Console

theorem tick_zero (c : Console) : c.tick 0 = c := by
  simp [tick, edit, Machine.tick_zero]

theorem tick_tick (c : Console) (first second : Nat) :
    (c.tick first).tick second = c.tick (first + second) := by
  simp [tick, edit, Machine.tick_tick]

end Console

/-- A difference of times, if it does not fall below zero. -/
def minus? (late early : Nat) : Option Nat :=
  if early ≤ late then some (late - early) else none

namespace Player

def tickOnce (player : Player) : Player :=
  { player with console := player.console.tick 1, lastTick := player.lastTick + timerPeriod }

/-- The loop that counts the timers down. It ticks as long as a whole period has gone by since the
last tick, and ends after so many ticks. Each time it looks, the last tick is not ahead of the
clock. -/
inductive CountsDown : Player → Nat → Player → Prop
  | done {player : Player} {elapsed : Nat}
      (found : minus? player.clock player.lastTick = some elapsed) (early : elapsed < timerPeriod) :
      CountsDown player 0 player
  | tick {player last : Player} {elapsed ticks : Nat}
      (found : minus? player.clock player.lastTick = some elapsed) (due : timerPeriod ≤ elapsed)
      (later : CountsDown player.tickOnce ticks last) : CountsDown player (ticks + 1) last

/-- The pause as it is worked out from two differences. -/
def pause? (player : Player) (cycle : Nat) : Option Nat := do
  let elapsed ← minus? player.clock player.lastCycle
  if !player.fastForward && elapsed < cycle then minus? cycle elapsed else some 0

/-- Catching up is the loop carried out. By induction on the ticks that are due. -/
theorem catchUp_countsDown {player : Player} (ahead : player.lastTick ≤ player.clock) :
    player.CountsDown player.ticksDue player.catchUp := by
  have found : minus? player.clock player.lastTick = some (player.clock - player.lastTick) :=
    if_pos ahead
  have period : 0 < timerPeriod := by decide
  generalize ticks : player.ticksDue = due
  induction due generalizing player with
  | zero =>
    have early : player.clock - player.lastTick < timerPeriod := by
      rcases Nat.div_eq_zero_iff.mp ticks with none | early
      · omega
      · exact early
    have same : player.catchUp = player := by
      simp [catchUp, ticks, Console.tick_zero]
    rw [same]
    exact .done found early
  | succ due ih =>
    have whole : timerPeriod ≤ player.clock - player.lastTick := by
      by_contra early
      have none := Nat.div_eq_of_lt (Nat.lt_of_not_le early)
      rw [ticksDue, none] at ticks
      cases ticks
    -- A whole period has gone by, so the last tick does not overtake the clock.
    have behind : player.tickOnce.lastTick ≤ player.tickOnce.clock := by
      change player.lastTick + timerPeriod ≤ player.clock
      omega
    -- One tick leaves one tick less to be made, and the same in the end.
    have fewer : player.tickOnce.ticksDue = due := by
      rw [ticksDue, Nat.div_eq_sub_div period whole, Nat.sub_sub] at ticks
      exact Nat.succ.inj ticks
    have same : player.tickOnce.catchUp = player.catchUp := by
      have console : player.tickOnce.console.tick due = player.console.tick (due + 1) := by
        rw [Nat.add_comm due 1]
        exact player.console.tick_tick 1 due
      have counted : player.lastTick + timerPeriod + due * timerPeriod =
          player.lastTick + (due + 1) * timerPeriod := by
        rw [Nat.succ_mul]
        omega
      unfold catchUp
      rw [fewer, ticks, console, ← counted]
      rfl
    rw [← same]
    exact .tick found whole (ih behind (if_pos behind) fewer)

theorem pause?_eq {player : Player} (ahead : player.lastCycle ≤ player.clock) (cycle : Nat) :
    player.pause? cycle = some (player.pause cycle) := by
  have found : minus? player.clock player.lastCycle = some (player.clock - player.lastCycle) :=
    if_pos ahead
  unfold pause? pause
  rw [found]
  cases player.fastForward with
  | true => rfl
  | false =>
    by_cases short : player.clock - player.lastCycle < cycle
    · simp [short, minus?, Nat.le_of_lt short]
    · have long : cycle - (player.clock - player.lastCycle) = 0 := by omega
      simp [short, long]

end Player

end Chip8
