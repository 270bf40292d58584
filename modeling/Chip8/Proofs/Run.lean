import Chip8.Console.Input

/-!
# Runs of a console

A run performs inputs one after the other with one set of dice and goes on after a refusal. What
one input keeps, a whole run keeps: `run_keeps_within` is the induction behind every invariant.
-/

namespace Chip8

instance decidableEqExcept {ε α : Type} [DecidableEq ε] [DecidableEq α] :
    DecidableEq (Except ε α)
  | .ok a, .ok b => decidable_of_iff (a = b) (by simp)
  | .error a, .error b => decidable_of_iff (a = b) (by simp)
  | .ok _, .error _ => isFalse nofun
  | .error _, .ok _ => isFalse nofun

def Input.isEdit : Input → Bool
  | .edit _ => true
  | _ => false

namespace Console

/-- Performs inputs in order, whether or not they are refused. -/
def run (c : Console) (dice : Dice) : List Input → Outcome
  | [] => ⟨[], c, dice, []⟩
  | input :: rest =>
    let reply := c.perform dice.top input
    let later := reply.console.run (dice.after reply.answer.executed?) rest
    { later with
      answers := reply.answer :: later.answers
      records := reply.records ++ later.records }

@[simp] theorem run_nil (c : Console) (dice : Dice) : (c.run dice []).console = c :=
  rfl

@[simp] theorem run_cons (c : Console) (dice : Dice) (input : Input) (rest : List Input) :
    (c.run dice (input :: rest)).console =
      ((c.perform dice.top input).console.run
        (dice.after (c.perform dice.top input).answer.executed?) rest).console :=
  rfl

/-- A run goes on from where its first part ends. -/
theorem run_append (c : Console) (dice : Dice) (first later : List Input) :
    c.run dice (first ++ later) =
      let begun := c.run dice first
      let rest := begun.console.run begun.dice later
      { rest with
        answers := begun.answers ++ rest.answers
        records := begun.records ++ rest.records } := by
  induction first generalizing c dice with
  | nil => rfl
  | cons input others ih => simp only [List.cons_append, run, ih, List.append_assoc]

/-- What every permitted input keeps, a run of permitted inputs keeps. The step may use what is
known of every console on the way. -/
theorem run_keeps_within (kept within : Console → Prop) (permitted : Input → Prop)
    (step : ∀ c random input, permitted input → kept c →
      within (c.perform random input).console → kept (c.perform random input).console)
    (c : Console) (dice : Dice) (inputs : List Input) (all : ∀ input ∈ inputs, permitted input)
    (way : ∀ count ≤ inputs.length, within (c.run dice (inputs.take count)).console)
    (start : kept c) : kept (c.run dice inputs).console := by
  induction inputs generalizing c dice with
  | nil => exact start
  | cons input rest ih =>
    rw [run_cons]
    -- The console after the first input is the one after a prefix of length one.
    refine ih _ _ (fun later member => all later (List.mem_cons_of_mem _ member)) ?_ ?_
    · intro count short
      exact way (count + 1) (Nat.succ_le_succ short)
    · exact step c dice.top input (all input List.mem_cons_self) start (way 1 (by simp))

theorem run_keeps (kept : Console → Prop) (permitted : Input → Prop)
    (step : ∀ c random input, permitted input → kept c → kept (c.perform random input).console)
    (c : Console) (dice : Dice) (inputs : List Input) (all : ∀ input ∈ inputs, permitted input)
    (start : kept c) : kept (c.run dice inputs).console :=
  run_keeps_within kept (fun _ => True) permitted
    (fun c random input allowed holds _ => step c random input allowed holds)
    c dice inputs all (fun _ _ => trivial) start

end Console

end Chip8
