import Chip8.Proofs.Player.Stages

/-!
# The keypad and the keyboard

The keypad belongs to the state of the machine, so taking a state back brings its keypad back too,
whatever has happened to the keys since. A journal tells which events still count: taking an
instruction back lets exactly those count that counted when it was executed.

## Main result

`keypad_follows_events`: after every pass a key of the keypad is down if and only if the latest
event that counts for it put it down. Events count from the pass on that hears them, and only a pass
that takes a state back can end that.
-/

namespace Chip8

/-- Where an event puts a key of the keypad: down, up, or nowhere. -/
def Event.change? (digit : Nibble) : Event → Option Bool
  | .key code isDown =>
    if Keypad.key? code = some (UInt8.ofNat digit.val) then some isDown else none
  | _ => none

/-- Whether the latest of some events about a key put it down. -/
def Event.leaveDown (events : List Event) (digit : Nibble) : Bool :=
  ((events.filterMap (change? digit)).getLast?).getD false

/-- The events heard in some stages. -/
def Stage.events (stages : List Stage) : List Event :=
  stages.flatMap Stage.heard

structure Journal where
  /-- The events that count, the latest last. -/
  events : List Event
  /-- For each instruction that can be taken back the events that counted then, the latest first. -/
  past : List (List Event)

namespace Journal

def empty : Journal :=
  ⟨[], []⟩

/-- The journal after a pass: the events that it heard count, unless it takes an instruction back.
-/
def note (journal : Journal) (heard : List Event) (activity : Activity) : Journal :=
  let events := journal.events ++ heard
  match activity, journal.past with
  | .executed _, past => ⟨events, events :: past⟩
  | .steppedBack, counted :: older => ⟨counted, older⟩
  | _, past => ⟨events, past⟩

def after (stages : List Stage) : Journal :=
  stages.foldl (fun journal stage => journal.note stage.heard stage.report.activity) empty

end Journal

/-! ### Keys going down and coming up -/

theorem Machine.deliver_pressed (m : Machine) (key : UInt8) :
    (m.deliver key).1.pressed = m.pressed := by
  unfold deliver
  split
  · rfl
  · dsimp only
    split <;> rfl

theorem Machine.press_pressed (m : Machine) {key : UInt8} (known : key.toNat < 16) :
    (m.press key).1.pressed = m.pressed.set key.toNat true := by
  rw [press, dif_pos known, deliver_pressed]

theorem Machine.release_pressed (m : Machine) {key : UInt8} (known : key.toNat < 16) :
    (m.release key).1.pressed = m.pressed.set key.toNat false := by
  rw [release, dif_pos known]

theorem Keypad.key?_lt {code : Keycode} {digit : UInt8} (known : key? code = some digit) :
    digit.toNat < 16 := by
  obtain ⟨place, found, rfl⟩ := Option.map_eq_some_iff.mp known
  obtain ⟨inside, -⟩ := List.idxOf?_eq_some_iff.mp found
  rw [List.length_map] at inside
  have sixteen : layout.length = 16 := rfl
  rw [UInt8.toNat_ofNat']
  omega

/-- Whatever comes before, a further event about a key decides where it is. -/
theorem Event.leaveDown_concat (events : List Event) (event : Event) (digit : Nibble) :
    leaveDown (events ++ [event]) digit =
      (event.change? digit).getD (leaveDown events digit) := by
  unfold leaveDown
  rw [List.filterMap_append]
  cases change : event.change? digit <;> simp [change]

namespace Keypad

/-- The keypad after some events, with all keys up before the first. -/
def after (events : List Event) : Vector Bool 16 :=
  Vector.ofFn (Event.leaveDown events)

theorem after_concat_of_key? (events : List Event) {code : Keycode} (isDown : Bool) {digit : UInt8}
    (known : key? code = some digit) (inside : digit.toNat < 16) :
    after (events ++ [.key code isDown]) = (after events).set digit.toNat isDown := by
  ext place bound
  have same : digit = UInt8.ofNat place ↔ digit.toNat = place := by
    rw [← UInt8.toNat_inj, UInt8.toNat_ofNat']
    omega
  simp only [after, Vector.getElem_ofFn, Vector.getElem_set, Event.leaveDown_concat,
    Event.change?, known, Option.some.injEq, same]
  split <;> rfl

theorem after_concat_of_key?_none (events : List Event) {code : Keycode} (isDown : Bool)
    (unknown : key? code = none) : after (events ++ [.key code isDown]) = after events := by
  ext place bound
  simp [after, Event.leaveDown_concat, Event.change?, unknown]

theorem after_concat_other (events : List Event) : after (events ++ [.other]) = after events := by
  ext place bound
  simp [after, Event.leaveDown_concat, Event.change?]

end Keypad

/-- The keypad follows the events that are heard. -/
theorem Player.hear_pressed (player : Player) (counted events : List Event)
    (before : player.console.machine.pressed = Keypad.after counted) :
    (player.hear events).player.console.machine.pressed =
      Keypad.after (counted ++ events.takeWhile (· ≠ .quit)) := by
  induction events generalizing player counted with
  | nil => simpa [hear] using before
  | cons event rest ih =>
    cases event with
    | quit => simpa [hear] using before
    | other =>
      have next := ih player (counted ++ [.other]) (by rw [before, Keypad.after_concat_other])
      simpa [hear] using next
    | key code isDown =>
      have next := ih (player.key code isDown).1 (counted ++ [.key code isDown]) ?_
      · simpa [hear] using next
      · rw [key_console]
        cases known : Keypad.key? code with
        | none => rw [before, Keypad.after_concat_of_key?_none counted isDown known]
        | some digit =>
          have inside := Keypad.key?_lt known
          rw [Keypad.after_concat_of_key? counted isDown known inside, ← before]
          cases isDown with
          | true => exact player.console.machine.press_pressed inside
          | false => exact player.console.machine.release_pressed inside

/-- The keypad follows the events of a pass. -/
theorem Player.listen_pressed (player : Player) (input : Pass) (counted : List Event)
    (before : player.console.machine.pressed = Keypad.after counted) :
    (player.listen input).player.console.machine.pressed =
      Keypad.after (counted ++ input.heard) := by
  refine hear_pressed _ counted input.events ?_
  change player.present.console.machine.pressed = _
  rw [present_console]
  exact before

theorem Player.listen_history (player : Player) (input : Pass) :
    (player.listen input).player.console.history = player.console.history := by
  refine hear_keeps (fun c => c.history = player.console.history) ?_ ?_ _ input.events ?_
  · intro c key same
    exact same
  · intro c key same
    exact same
  · change player.present.console.history = _
    rw [present_console]
    rfl

/-! ### The journal -/

/-- The keypads of a console, the past ones included, are those that the journal tells. -/
structure Journal.Fits (journal : Journal) (c : Console) : Prop where
  pressed : c.machine.pressed = Keypad.after journal.events
  history : c.history.map Machine.pressed <+: journal.past.map Keypad.after

/-- What a pass does to the console if it comes to its events. -/
theorem Journal.Fits.passed {journal : Journal} {player : Player}
    (fits : journal.Fits player.console) {input : Pass} {activity : Activity} {console : Console}
    (passed : player.Passed input activity console) (hears : activity.hears) :
    (journal.note input.heard activity).Fits console := by
  have pressed := player.listen_pressed input journal.events fits.pressed
  have history := fits.history
  rw [← player.listen_history input] at history
  cases passed with
  | unshown refused => cases hears
  | quit quits => exact ⟨pressed, history⟩
  | turned turned =>
    cases turned with
    | @steppedBack latest older found =>
      rw [found, List.map_cons] at history
      cases past : journal.past with
      | nil => simp [past] at history
      | cons counted rest =>
        rw [past, List.map_cons, List.cons_prefix_cons] at history
        simp only [note, past]
        exact ⟨history.1, history.2⟩
    | atBeginning empty => exact ⟨pressed, history⟩
    | failed fault => exact ⟨pressed, history⟩
    | waited ticks => exact ⟨pressed, history⟩
    | executed ticks stepped =>
      cases Machine.eq_outcome_of_step stepped
      constructor
      · change Machine.pressed (Machine.resume _ _) = _
        rw [Machine.resume_pressed]
        exact pressed
      · -- What is forgotten is below what is kept.
        have pushed :=
          (List.prefix_cons_inj (Keypad.after (journal.events ++ input.heard))).mpr history
        change ((_ :: _).take Console.historyLimit).map Machine.pressed <+: _
        rw [List.map_take, List.map_cons, pressed]
        exact (List.take_prefix _ _).trans pushed

theorem Journal.Fits.pass {journal : Journal} {player : Player} (fits : journal.Fits player.console)
    (cycle : Nat) (input : Pass) :
    let stage := player.stage cycle input
    (journal.note stage.heard stage.report.activity).Fits stage.after.console := by
  intro stage
  cases hears : stage.report.activity.hears with
  | true =>
    have heard : stage.heard = input.heard := if_pos hears
    rw [heard]
    exact fits.passed (player.pass_passed cycle input) hears
  | false =>
    -- Nothing was heard and nothing was done.
    have heard : stage.heard = [] := if_neg (by simp [hears])
    obtain ⟨reason, same⟩ := Player.pass_of_not_hears hears
    have unshown : stage.report.activity = .unshown reason := by
      change (player.pass cycle input).2.activity = _
      rw [same]
    have after : stage.after = player := by
      change (player.pass cycle input).1 = player
      rw [same]
    rw [heard, unshown, after]
    exact ⟨by simpa [note] using fits.pressed, fits.history⟩

theorem Journal.Fits.start (dice : Dice) (memory : Memory) :
    empty.Fits (Player.start ⟨{ Machine.initial with memory }, []⟩ dice).console := by
  refine ⟨?_, List.prefix_refl _⟩
  ext place inside
  simp [Player.start, Machine.initial, Keypad.after, empty, Event.leaveDown]

theorem Journal.after_concat (past : List Stage) (stage : Stage) :
    after (past ++ [stage]) = (after past).note stage.heard stage.report.activity := by
  rw [after, List.foldl_append]
  rfl

theorem Journal.note_events (journal : Journal) (heard : List Event) {activity : Activity}
    (forward : activity ≠ .steppedBack) :
    (journal.note heard activity).events = journal.events ++ heard := by
  cases activity with
  | steppedBack => exact absurd rfl forward
  | _ => rfl

/-- Unless a state is taken back, all events count that counted before, and all that are heard. -/
theorem Journal.after_append (early late : List Stage)
    (forward : ∀ stage ∈ late, stage.report.activity ≠ .steppedBack) :
    (after (early ++ late)).events = (after early).events ++ Stage.events late := by
  induction late generalizing early with
  | nil => simp [Stage.events]
  | cons stage rest ih =>
    have first := forward stage List.mem_cons_self
    rw [List.append_cons, ih (early ++ [stage]) fun later member =>
      forward later (List.mem_cons_of_mem _ member), after_concat, note_events _ _ first,
      List.append_assoc]
    rfl

/-- Events about a key hide those before them. -/
theorem Event.leaveDown_append (early late : List Event) {event : Event} {digit : Nibble}
    (member : event ∈ late) (about : (event.change? digit).isSome) :
    leaveDown (early ++ late) digit = leaveDown late digit := by
  obtain ⟨isDown, change⟩ := Option.isSome_iff_exists.mp about
  have heard : isDown ∈ late.filterMap (change? digit) :=
    List.mem_filterMap.mpr ⟨event, member, change⟩
  unfold leaveDown
  rw [List.filterMap_append, List.getLast?_append_of_ne_nil _ (List.ne_nil_of_mem heard)]

namespace Session

/-- After every pass a key is down if and only if the latest event about it that counts put it down.
That is the latest event of all if there was one since a state was last taken back, or if no state
was ever taken back. -/
theorem keypad_follows_events (arguments : List String) (host : Host) (dice : Dice)
    (script : List Pass) :
    let stages := stages arguments host dice script
    ∀ place stage, stages[place]? = some stage →
      let past := stages.take (place + 1)
      let keypad := stage.after.console.machine.pressed
      (∀ digit, keypad.get digit = Event.leaveDown (Journal.after past).events digit) ∧
      ∀ early late, past = early ++ late →
        (∀ later ∈ late, later.report.activity ≠ .steppedBack) →
          ∀ digit, (early = [] ∨ ∃ event ∈ Stage.events late, (event.change? digit).isSome) →
            keypad.get digit = Event.leaveDown (Stage.events past) digit := by
  intro stages place stage found past keypad
  obtain ⟨before, cycle, same⟩ :=
    stages_keep (fun past player => (Journal.after past).Fits player.console)
      (Journal.Fits.start dice)
      (fun cycle past player input _ fits => by
        rw [Journal.after_concat]
        exact fits.pass cycle input) found
  have past_eq : past = stages.take place ++ [stage] := by
    rw [← Option.toList_some, ← found, ← List.take_add_one]
  have fits : (Journal.after past).Fits stage.after.console := by
    rw [past_eq, Journal.after_concat, same]
    exact before.pass cycle stage.input
  -- The journal after the stage fits the console after it, and a journal determines the keypad.
  have law (digit : Nibble) :
      keypad.get digit = Event.leaveDown (Journal.after past).events digit := by
    change stage.after.console.machine.pressed.get digit = _
    rw [fits.pressed]
    simp [Keypad.after, Cells.get_eq_getElem]
  refine ⟨law, ?_⟩
  intro early late split forward digit reason
  have counted :
      (Journal.after past).events = (Journal.after early).events ++ Stage.events late := by
    rw [split]
    exact Journal.after_append early late forward
  have heard : Stage.events past = Stage.events early ++ Stage.events late := by
    rw [split]
    exact List.flatMap_append
  rw [law, counted, heard]
  -- A later event about the digit decides, so what the journal has forgotten does not matter.
  rcases reason with rfl | ⟨event, member, about⟩
  · rfl
  · rw [Event.leaveDown_append _ _ member about, Event.leaveDown_append _ _ member about]

/-- A key is let go while a state is taken back in which it was held, and another one goes down
later. -/
theorem keypad_follows_events_taken_back :
    let host := Host.ofFile "rom.ch8" [0x60, 0x00, 0x12, 0x02]
    let script : List Pass := [⟨0, [.key ('x'.toNat : Int) true], .plain⟩,
      ⟨0, [.key Keycode.escape true, .key ('x'.toNat : Int) false], .plain⟩,
      ⟨0, [.key Keycode.escape false, .key ('v'.toNat : Int) true], .plain⟩]
    let stages := stages ["rom.ch8"] host (Dice.ofList []) script
    ∃ stage, stages[2]? = some stage ∧
      stage.after.console.machine.pressed.get Nibble.first =
        Event.leaveDown (Journal.after (stages.take 3)).events Nibble.first ∧
      Event.leaveDown (Journal.after (stages.take 3)).events Nibble.first = true ∧
      Event.leaveDown (Stage.events (stages.take 3)) Nibble.first = false ∧
      stage.after.console.machine.pressed.get Nibble.last =
        Event.leaveDown (Stage.events (stages.take 3)) Nibble.last := by
  intro host script stages
  have facts : stages[2]?.isSome ∧
      Event.leaveDown (Journal.after (stages.take 3)).events Nibble.first = true ∧
      Event.leaveDown (Stage.events (stages.take 3)) Nibble.first = false ∧
      (stages[2]?.toList.all fun stage => stage.report.activity ≠ .steppedBack) ∧
      ((Stage.events stages[2]?.toList).any fun event =>
        (event.change? Nibble.last).isSome) := by
    decide +kernel
  obtain ⟨third, counts, heard, forward, about⟩ := facts
  obtain ⟨stage, found⟩ := Option.isSome_iff_exists.mp third
  obtain ⟨law, recent⟩ :=
    keypad_follows_events ["rom.ch8"] host (Dice.ofList []) script 2 stage found
  refine ⟨stage, found, law Nibble.first, counts, heard, ?_⟩
  -- The last of the three stages takes no state back and hears of the key.
  refine recent (stages.take 2) stages[2]?.toList List.take_add_one ?_ Nibble.last (.inr ?_)
  · simpa using forward
  · simpa using about

/-- A key that goes down while a state is taken back is up afterwards, although it was not let go.
-/
theorem keypad_forgets_key :
    let host := Host.ofFile "rom.ch8" [0x60, 0x00, 0xE0, 0x9E, 0x12, 0x04, 0x12, 0x06]
    let script : List Pass := [⟨0, [], .plain⟩,
      ⟨0, [.key Keycode.escape true, .key ('x'.toNat : Int) true], .plain⟩,
      ⟨0, [.key Keycode.escape false], .plain⟩]
    let stages := stages ["rom.ch8"] host (Dice.ofList []) script
    ∃ stage, stages[2]? = some stage ∧ stage.report.activity.goesOn ∧
      Event.leaveDown (Stage.events (stages.take 3)) Nibble.first = true ∧
      stage.after.console.machine.pressed.get Nibble.first = false := by
  intro host script stages
  have facts : stages[2]?.map (fun stage => (stage.report.activity.goesOn,
      stage.after.console.machine.pressed.get Nibble.first)) = some (true, false) ∧
      Event.leaveDown (Stage.events (stages.take 3)) Nibble.first = true := by
    decide +kernel
  obtain ⟨third, down⟩ := facts
  obtain ⟨stage, found, both⟩ := Option.map_eq_some_iff.mp third
  obtain ⟨on, up⟩ := Prod.mk.inj both
  exact ⟨stage, found, on, down, up⟩

end Session

end Chip8
