import Chip8.Proofs.Player.Stages
import Chip8.Proofs.Veil
import Mathlib.Data.List.Forall2

/-!
# Players that differ in time alone

Time reaches a console through its timers only. Two players may differ in their timers, their clock
and their pace: as long as no instruction reads the delay, what they do in a pass is the same and
they are still alike after it.

`Alike.stages` is the induction over the passes. They may take different times and be given
different events about the pace, and each player has a speed of its own.
-/

namespace Chip8

/-- Whether an event is about the pace of the player. -/
def Event.paces : Event → Bool
  | .key code _ => code = Keycode.space
  | _ => false

/-- What a pass gets from outside that is neither time nor about the pace: why the canvas shows
nothing, if it shows nothing, and the other events. -/
def Pass.steering (input : Pass) : Option String × List Event :=
  (input.canvas.refusal?, input.events.filter fun event => !event.paces)

/-- The records of executed opcodes. -/
def Record.traces (records : List Record) : List Record :=
  records.filter fun record => record.level = .trace

/-! ### Consoles without their timers -/

namespace Machine

theorem press_untimed (m : Machine) (key : UInt8) :
    m.untimed.press key = ((m.press key).1.untimed, (m.press key).2) := by
  unfold press
  split
  next known =>
    unfold deliver untimed
    dsimp only
    split
    · rfl
    · split <;> rfl
  next unknown => rfl

theorem release_untimed (m : Machine) (key : UInt8) :
    m.untimed.release key = ((m.release key).1.untimed, (m.release key).2) := by
  unfold release
  split <;> rfl

theorem press_alike {m n : Machine} (same : m.untimed = n.untimed) (key : UInt8) :
    (m.press key).1.untimed = (n.press key).1.untimed ∧ (m.press key).2 = (n.press key).2 := by
  have pressed : m.untimed.press key = n.untimed.press key := by rw [same]
  rw [press_untimed, press_untimed] at pressed
  exact Prod.mk.inj pressed

theorem release_alike {m n : Machine} (same : m.untimed = n.untimed) (key : UInt8) :
    (m.release key).1.untimed = (n.release key).1.untimed ∧
      (m.release key).2 = (n.release key).2 := by
  have released : m.untimed.release key = n.untimed.release key := by rw [same]
  rw [release_untimed, release_untimed] at released
  exact Prod.mk.inj released

end Machine

namespace Console

/-- A console and its past with all timers at zero. -/
def untimed (c : Console) : Console :=
  c.veiled Machine.untimed

theorem untimed_eq_iff {c d : Console} :
    c.untimed = d.untimed ↔ c.machine.untimed = d.machine.untimed ∧
      c.history.map Machine.untimed = d.history.map Machine.untimed := by
  simp [untimed, veiled]

theorem frame?_untimed (c : Console) : c.untimed.frame? = c.frame? :=
  rfl

theorem tick_untimed (c : Console) (count : Nat) : (c.tick count).untimed = c.untimed :=
  rfl

theorem markShown_alike {c d : Console} (same : c.untimed = d.untimed) :
    c.markShown.untimed = d.markShown.untimed := by
  have seen (c : Console) : c.untimed.markShown.untimed = c.markShown.untimed := by
    simp [untimed, veiled, markShown, edit, Machine.untimed]
  rw [← seen c, same, seen d]

theorem rewind_alike {c d : Console} (same : c.untimed = d.untimed) :
    c.rewind.untimed = d.rewind.untimed := by
  have seen (c : Console) : c.untimed.rewind.untimed = c.rewind.untimed := by
    obtain ⟨machine, history⟩ := c
    cases history <;> simp [untimed, veiled, rewind, Machine.untimed]
  rw [← seen c, same, seen d]

end Console

namespace Player

/-- Players that may differ in their timers, their clock and their pace. -/
structure Alike (a b : Player) : Prop where
  console : a.console.untimed = b.console.untimed
  dice : a.dice = b.dice
  rewinding : a.rewinding = b.rewinding

theorem Alike.refl (a : Player) : a.Alike a :=
  ⟨rfl, rfl, rfl⟩

theorem Alike.symm {a b : Player} (alike : a.Alike b) : b.Alike a :=
  ⟨alike.console.symm, alike.dice.symm, alike.rewinding.symm⟩

theorem Alike.trans {a b c : Player} (first : a.Alike b) (second : b.Alike c) : a.Alike c where
  console := first.console.trans second.console
  dice := first.dice.trans second.dice
  rewinding := first.rewinding.trans second.rewinding

/-! ### What is heard -/

structure Heard.Alike (a b : Heard) : Prop where
  player : a.player.Alike b.player
  records : a.records = b.records
  quits : a.quits = b.quits

theorem Alike.present {a b : Player} (alike : a.Alike b) : a.present.Alike b.present := by
  have console : a.present.console.untimed = b.present.console.untimed := by
    rw [present_console, present_console]
    exact Console.markShown_alike alike.console
  refine ⟨console, ?_, ?_⟩
  · unfold Player.present
    split <;> split <;> exact alike.dice
  · unfold Player.present
    split <;> split <;> exact alike.rewinding

theorem Alike.key {a b : Player} (alike : a.Alike b) (code : Keycode) (isDown : Bool) :
    (a.key code isDown).1.Alike (b.key code isDown).1 ∧
      (a.key code isDown).2 = (b.key code isDown).2 := by
  obtain ⟨console, dice, rewinding⟩ := alike
  obtain ⟨machine, history⟩ := Console.untimed_eq_iff.mp console
  unfold Player.key
  cases Keypad.key? code with
  | some digit =>
    cases isDown with
    | true =>
      obtain ⟨after, told⟩ := Machine.press_alike machine digit
      exact ⟨⟨Console.untimed_eq_iff.mpr ⟨after, history⟩, dice, rewinding⟩, told⟩
    | false =>
      obtain ⟨after, told⟩ := Machine.release_alike machine digit
      exact ⟨⟨Console.untimed_eq_iff.mpr ⟨after, history⟩, dice, rewinding⟩, told⟩
  | none =>
    dsimp only
    split
    next pace => exact ⟨⟨console, dice, rewinding⟩, rfl⟩
    next =>
      split
      next backwards => exact ⟨⟨console, dice, rfl⟩, rfl⟩
      next => exact ⟨⟨console, dice, rewinding⟩, rfl⟩

/-- It makes no difference whether a player hears of its pace. -/
theorem Alike.hear {a b : Player} (alike : a.Alike b) (events : List Event) :
    (a.hear events).Alike (b.hear (events.filter fun event => !event.paces)) := by
  induction events generalizing a b with
  | nil => exact ⟨alike, rfl, rfl⟩
  | cons event rest ih =>
    cases event with
    | quit => exact ⟨alike, rfl, rfl⟩
    | other => exact ih alike
    | key code isDown =>
      by_cases pace : code = Keycode.space
      · -- The event is left out on the right, and on the left it changes the pace alone.
        subst pace
        have paced : { a with fastForward := isDown }.Alike b :=
          ⟨alike.console, alike.dice, alike.rewinding⟩
        have left : a.hear (.key Keycode.space isDown :: rest) =
            { a with fastForward := isDown }.hear rest := by
          simp [Player.hear, key_space]
        have right : (Event.key Keycode.space isDown).paces = true := rfl
        rw [left, List.filter_cons, right]
        exact ih paced
      · obtain ⟨after, told⟩ := alike.key code isDown
        have heard := ih after
        have kept : (Event.key code isDown).paces = false := by simpa [Event.paces] using pace
        rw [List.filter_cons, kept]
        refine ⟨heard.player, ?_, heard.quits⟩
        calc (a.hear (.key code isDown :: rest)).records
          _ = (a.key code isDown).2 ++ ((a.key code isDown).1.hear rest).records := rfl
          _ = (b.key code isDown).2 ++ ((b.key code isDown).1.hear (rest.filter _)).records := by
            rw [told, heard.records]

theorem Alike.listen {a b : Player} (alike : a.Alike b) {input other : Pass}
    (heard : input.steering.2 = other.steering.2) : (a.listen input).Alike (b.listen other) := by
  have waited : (a.present.wait input.advance).Alike (b.present.wait other.advance) := by
    obtain ⟨console, dice, rewinding⟩ := alike.present
    exact ⟨console, dice, rewinding⟩
  -- Both hear the same as one who does not hear of the pace.
  have first := waited.hear input.events
  have second := (Alike.refl (b.present.wait other.advance)).hear other.events
  change Heard.Alike _ (Player.hear _ input.steering.2) at first
  change Heard.Alike _ (Player.hear _ other.steering.2) at second
  rw [heard] at first
  constructor
  · exact first.player.trans second.player.symm
  · exact first.records.trans second.records.symm
  · exact first.quits.trans second.quits.symm

/-! ### What is done -/

theorem catchUp_alike (player : Player) : player.catchUp.Alike player :=
  ⟨player.console.tick_untimed _, rfl, rfl⟩

theorem Alike.stepBack {a b : Player} (alike : a.Alike b) : a.stepBack.Alike b.stepBack :=
  ⟨Console.rewind_alike alike.console, alike.dice, alike.rewinding⟩

theorem Alike.stepOn {a b : Player} (alike : a.Alike b)
    (blind : ∀ x, a.stepOn.2.1 ≠ .ok (some (.readDelay x))) :
    a.stepOn.1.Alike b.stepOn.1 ∧ a.stepOn.2 = b.stepOn.2 := by
  obtain ⟨console, dice, rewinding⟩ := alike
  have overlooked : ∀ instruction, (a.console.step a.dice.top).answer = .ok (some instruction) →
      instruction.Overlooks Machine.untimed := by
    intro instruction executed
    refine Instruction.overlooks_untimed ?_
    rintro x rfl
    exact blind x executed
  obtain ⟨answer, told, after⟩ :=
    Machine.untimed_veil.console_step console a.dice.top overlooked
  unfold Player.stepOn
  simp only [← dice, ← answer, ← told, and_true]
  exact ⟨after, rfl, rewinding⟩

theorem turn_activity_of_stepOn {player : Player} {instruction : Instruction}
    (forwards : player.rewinding = false)
    (executed : player.stepOn.2.1 = .ok (some instruction)) :
    player.turn.2.1 = .executed instruction := by
  unfold turn
  rw [forwards, if_neg Bool.false_ne_true]
  split
  next failed => simp [failed] at executed
  next waited => simp [waited] at executed
  next found => simpa [found] using executed

/-- A turn does the same in both, unless it brings the delay to light. -/
theorem Alike.turn {a b : Player} (alike : a.Alike b)
    (blind : ∀ x, a.turn.2.1 ≠ .executed (.readDelay x)) :
    a.turn.1.Alike b.turn.1 ∧ a.turn.2.1 = b.turn.2.1 ∧ a.turn.2.2.2 = b.turn.2.2.2 := by
  have rewinding := alike.rewinding
  cases backwards : a.rewinding with
  | true =>
    rw [backwards] at rewinding
    have pasts : a.console.history.map Machine.untimed = b.console.history.map Machine.untimed :=
      (Console.untimed_eq_iff.mp alike.console).2
    unfold Player.turn
    rw [backwards, ← rewinding, if_pos rfl, if_pos rfl]
    -- Both have a past state to go back to or neither has.
    cases left : a.console.history with
    | nil =>
      rw [left] at pasts
      rw [List.map_eq_nil_iff.mp pasts.symm]
      exact ⟨alike.stepBack, rfl, rfl⟩
    | cons latest older =>
      cases right : b.console.history with
      | nil => simp [left, right] at pasts
      | cons => exact ⟨alike.stepBack, rfl, rfl⟩
  | false =>
    rw [backwards] at rewinding
    obtain ⟨after, done⟩ := alike.stepOn fun x executed =>
      blind x (turn_activity_of_stepOn backwards executed)
    unfold Player.turn
    rw [backwards, ← rewinding, if_neg Bool.false_ne_true, if_neg Bool.false_ne_true]
    generalize a.stepOn = left at after done ⊢
    generalize b.stepOn = right at after done ⊢
    obtain ⟨first, answer, records⟩ := left
    obtain ⟨second, _, _⟩ := right
    cases done
    -- The timers count by different numbers of ticks, and are at zero without them.
    have ticked : first.catchUp.Alike second.catchUp :=
      first.catchUp_alike.trans (after.trans second.catchUp_alike.symm)
    rcases answer with fault | _ | instruction
    · exact ⟨after, rfl, rfl⟩
    · exact ⟨ticked, rfl, rfl⟩
    · exact ⟨ticked, rfl, rfl⟩

theorem Alike.unshown? {a b : Player} (alike : a.Alike b) {input other : Pass}
    (heard : input.steering.1 = other.steering.1) : a.unshown? input = b.unshown? other := by
  have due := congrArg Machine.redraw (Console.untimed_eq_iff.mp alike.console).1
  change a.console.machine.redraw = b.console.machine.redraw at due
  change input.canvas.refusal? = other.canvas.refusal? at heard
  unfold Player.unshown?
  rw [due, heard]

/-- What a pass does apart from keeping time: the player after it, the activity and the records. -/
def heed (player : Player) (input : Pass) : Player × Activity × List Record :=
  match player.unshown? input with
  | some reason => (player, .unshown reason, [])
  | none =>
    let heard := player.listen input
    let turn := heard.player.turn
    if heard.quits then (heard.player, .quit, heard.records)
    else (turn.1, turn.2.1, heard.records ++ turn.2.2.2)

theorem Alike.heed {a b : Player} (alike : a.Alike b) {input other : Pass}
    (heard : input.steering = other.steering)
    (blind : ∀ x, (a.heed input).2.1 ≠ .executed (.readDelay x)) :
    (a.heed input).1.Alike (b.heed other).1 ∧ (a.heed input).2 = (b.heed other).2 := by
  obtain ⟨refused, events⟩ := Prod.mk.inj heard
  obtain ⟨player, records, quits⟩ := alike.listen events
  unfold Player.heed at blind ⊢
  rw [← alike.unshown? refused]
  cases unshown : a.unshown? input with
  | some reason => exact ⟨alike, rfl⟩
  | none =>
    simp only [unshown] at blind ⊢
    rw [← quits, ← records]
    split
    next leaves => exact ⟨player, rfl⟩
    next stays =>
      rw [if_neg stays] at blind
      obtain ⟨after, activity, told⟩ := player.turn blind
      rw [activity, told]
      exact ⟨after, rfl⟩

/-! ### What keeping time adds -/

theorem buzz_alike (player : Player) : player.buzz.1.Alike player := by
  unfold buzz
  split
  · exact .refl player
  · exact ⟨rfl, rfl, rfl⟩

theorem traces_buzz (player : Player) (records : List Record) :
    Record.traces (records ++ player.buzz.2) = Record.traces records := by
  have silent : Record.traces player.buzz.2 = [] := by
    unfold buzz
    split <;> rfl
  unfold Record.traces at silent ⊢
  rw [List.filter_append, silent, List.append_nil]

theorem rest_alike (player : Player) (cycle : Nat) : (player.rest cycle).Alike player :=
  ⟨rfl, rfl, rfl⟩

/-- Besides, a pass sees to the buzzer and pauses, and neither matters. -/
theorem pass_heed (player : Player) (cycle : Nat) (input : Pass) :
    (player.pass cycle input).1.Alike (player.heed input).1 ∧
      (player.pass cycle input).2.activity = (player.heed input).2.1 ∧
      Record.traces (player.pass cycle input).2.records =
        Record.traces (player.heed input).2.2 := by
  unfold heed
  have comes := player.pass_comes cycle input
  generalize player.pass cycle input = done at comes ⊢
  cases comes with
  | unshown refused =>
    rw [refused]
    exact ⟨.refl player, rfl, rfl⟩
  | quit renders quits =>
    rw [renders.taken]
    dsimp only
    rw [quits]
    exact ⟨.refl _, rfl, rfl⟩
  | @goesOn frame turned activity ticks told renders stays turn on =>
    rw [renders.taken]
    dsimp only
    rw [stays, turn]
    exact ⟨(rest_alike _ cycle).trans turned.buzz_alike, rfl, turned.traces_buzz _⟩
  | ends renders stays turn off =>
    rw [renders.taken]
    dsimp only
    rw [stays, turn]
    exact ⟨.refl _, rfl, rfl⟩

end Player

/-- Stages that differ in time alone. -/
structure Stage.Alike (s t : Stage) : Prop where
  after : s.after.Alike t.after
  frame : s.report.frame.map Texture.image = t.report.frame.map Texture.image
  activity : s.report.activity = t.report.activity
  traces : Record.traces s.report.records = Record.traces t.report.records

namespace Player

theorem Alike.stage {a b : Player} (alike : a.Alike b) (cycle pace : Nat) {input other : Pass}
    (heard : input.steering = other.steering)
    (blind : ∀ x, (a.stage cycle input).report.activity ≠ .executed (.readDelay x)) :
    (a.stage cycle input).Alike (b.stage pace other) := by
  obtain ⟨left, leftActivity, leftTraces⟩ := a.pass_heed cycle input
  obtain ⟨right, rightActivity, rightTraces⟩ := b.pass_heed pace other
  have unseen : ∀ x, (a.heed input).2.1 ≠ .executed (.readDelay x) := by
    rw [← leftActivity]
    exact blind
  obtain ⟨after, done⟩ := alike.heed heard unseen
  constructor
  · exact left.trans (after.trans right.symm)
  · have due : a.console.frame? = b.console.frame? := by
      rw [← a.console.frame?_untimed, alike.console, b.console.frame?_untimed]
    change (a.pass cycle input).2.frame.map _ = (b.pass pace other).2.frame.map _
    rw [pass_image, pass_image, due, alike.unshown? (congrArg Prod.fst heard)]
  · change (a.pass cycle input).2.activity = (b.pass pace other).2.activity
    rw [leftActivity, rightActivity, done]
  · change Record.traces (a.pass cycle input).2.records =
      Record.traces (b.pass pace other).2.records
    rw [leftTraces, rightTraces, done]

/-- Pass by pass, players that are alike go through stages that are. -/
theorem Alike.stages {a b : Player} (alike : a.Alike b) (cycle pace : Nat)
    {script other : List Pass} (heard : script.map Pass.steering = other.map Pass.steering)
    (blind : ∀ stage ∈ a.stages cycle script, ∀ x,
      stage.report.activity ≠ .executed (.readDelay x)) :
    List.Forall₂ Stage.Alike (a.stages cycle script) (b.stages pace other) := by
  induction script generalizing a b other with
  | nil =>
    cases other with
    | nil => exact .nil
    | cons => simp at heard
  | cons input rest ih =>
    cases other with
    | nil => simp at heard
    | cons another others =>
      obtain ⟨first, later⟩ := List.cons.inj heard
      have here := alike.stage cycle pace first (blind _ List.mem_cons_self)
      unfold Player.stages
      refine .cons here ?_
      -- Both go on or neither does.
      rw [← here.activity]
      split
      next on =>
        refine ih here.after later ?_
        intro stage member
        refine blind stage ?_
        unfold Player.stages
        dsimp only
        rw [if_pos on]
        exact List.mem_cons_of_mem _ member
      next ends => exact .nil

end Player

end Chip8
