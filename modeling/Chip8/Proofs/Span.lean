import Chip8.Proofs.Procedure.Pieces

/-!
# Spans and the end of memory

A span is asked for by its start and its length, and should be had exactly if memory has all of its
bytes. The end of the span is a sum of machine words. The lengths that instructions ask for are
small, so their sums are exact; but a length of nearly all 64 bits takes the sum past the largest
word. If sums wrap around, what looks like the end of the span then lies in front of its start; if
they are checked, there is no answer at all.

## Main result

`lawful_iff_fits`: a request for a span is answered as it should be if and only if the sum fits into
a word, whether sums wrap around or are checked.
-/

namespace Chip8.Span

/-- How a request for `length` bytes from `start` on should be answered: by a span of that length
inside memory, or, if the last byte lies beyond the end of memory, by the address of that byte. -/
inductive Lawful (start : UInt16) (length : UInt64) : Except Fault Span → Prop
  | granted {span : Span} (ordered : span.start ≤ span.stop) (inside : span.stop ≤ Memory.size)
      (long : span.stop - span.start = length.toNat)
      (placed : span.start = if length = 0 then min start.toNat Memory.size else start.toNat) :
      Lawful start length (.ok span)
  | refused (asked : length ≠ 0) (beyond : Memory.size < start.toNat + length.toNat) :
      Lawful start length (.error (.outOfBounds (start.toNat + length.toNat - 1)))

variable {start : UInt16} {length : UInt64}

theorem lawful_within_of_fits (fits : start.toNat + length.toNat < UInt64.size) :
    Lawful start length (within start length) := by
  rw [within_of_fits start length fits]
  split
  next empty =>
    refine .granted (Nat.le_refl _) (Nat.min_le_right _ _) ?_ (if_pos empty).symm
    rw [empty, Nat.sub_self]
    rfl
  next asked =>
    split
    next room =>
      exact .granted (Nat.le_add_right _ _) room (Nat.add_sub_cancel_left _ _) (if_neg asked).symm
    next full => exact .refused asked (Nat.lt_of_not_le full)

/-- Past the largest word the sum starts again at zero and stays below the start. -/
theorem toNat_stop_of_wraps (wraps : UInt64.size ≤ start.toNat + length.toNat) :
    (start.toUInt64 + length).toNat + UInt64.size = start.toNat + length.toNat ∧
      (start.toUInt64 + length).toNat < start.toNat := by
  have low := start.toNat_lt
  have wide := length.toNat_lt
  have size : UInt64.size = 18446744073709551616 := rfl
  rw [UInt64.toNat_add, UInt16.toNat_toUInt64]
  omega

theorem not_lawful_within_of_wraps (wraps : UInt64.size ≤ start.toNat + length.toNat) :
    ¬ Lawful start length (within start length) := by
  obtain ⟨sum, short⟩ := toNat_stop_of_wraps wraps
  have asked : length ≠ 0 := by
    rintro rfl
    simp at short
  intro lawful
  simp only [within, if_neg asked] at lawful
  split at lawful
  next room =>
    -- A span is granted that ends in front of its start.
    cases lawful with
    | granted ordered inside long placed => exact absurd ordered (Nat.not_le.mpr short)
  next full =>
    -- The address that is reported lies before the start, not behind the span.
    generalize refusal : Except.error _ = answer at lawful
    cases lawful with
    | granted => cases refusal
    | refused asked beyond =>
      have same := Fault.outOfBounds.inj (Except.error.inj refusal)
      have size : 0 < UInt64.size := by decide
      omega

/-- A request for a span is answered as it should be, unless the sum of its start and its length
exceeds the largest word. -/
theorem lawful_within_iff (start : UInt16) (length : UInt64) :
    Lawful start length (within start length) ↔
      start.toNat + length.toNat < UInt64.size := by
  refine ⟨fun lawful => Nat.lt_of_not_le fun wraps => ?_, lawful_within_of_fits⟩
  exact not_lawful_within_of_wraps wraps lawful

/-! ### Checked sums -/

/-- What a procedure answers, unless it is stuck. -/
def answer? {α : Type} : EStateM.Result Stop Store α → Option (Except Fault α)
  | .ok value _ => some (.ok value)
  | .error (.fault cause) _ => some (.error cause)
  | .error .stuck _ => none

theorem answer?_span_of_fits (fits : start.toNat + length.toNat < UInt64.size) (s : Store) :
    answer? ((Procedure.span start length.toNat).run s) = some (within start length) := by
  rw [Procedure.run_span_of_fits start length fits]
  cases within start length <;> rfl

theorem answer?_span_of_wraps (wraps : UInt64.size ≤ start.toNat + length.toNat) (s : Store) :
    answer? ((Procedure.span start length.toNat).run s) = none := by
  have asked : length.toNat ≠ 0 := by
    have low := start.toNat_lt
    have size : UInt64.size = 18446744073709551616 := rfl
    omega
  unfold Procedure.span
  rw [if_neg asked, Procedure.fit, if_neg (Nat.not_lt.mpr wraps)]
  rfl

/-- A request for a span is answered as it should be if and only if the sum of its start and its
length fits into a word. If sums wrap around, any other request gets a wrong answer, and if they are
checked it gets none. -/
theorem lawful_iff_fits (start : UInt16) (length : UInt64) (s : Store) :
    (Lawful start length (within start length) ↔
      start.toNat + length.toNat < UInt64.size) ∧
    ((∃ answer, answer? ((Procedure.span start length.toNat).run s) = some answer ∧
      Lawful start length answer) ↔ start.toNat + length.toNat < UInt64.size) := by
  refine ⟨lawful_within_iff start length, ?_, ?_⟩
  · rintro ⟨answer, found, -⟩
    refine Nat.lt_of_not_le fun wraps => ?_
    rw [answer?_span_of_wraps wraps s] at found
    cases found
  · intro fits
    exact ⟨_, answer?_span_of_fits fits s, lawful_within_of_fits fits⟩

/-- Only memory that exists is handed out, for the length of every instruction. -/
theorem lawful_within_ofNat (start : UInt16) (length : Nat) (short : length ≤ 16) :
    Lawful start (UInt64.ofNat length) (within start (UInt64.ofNat length)) := by
  have low := start.toNat_lt
  have size : UInt64.size = 18446744073709551616 := rfl
  refine lawful_within_of_fits ?_
  rw [UInt64.toNat_ofNat']
  omega

/-- As many bytes as a word can count, from the second address on: either a span is granted that
begins at address one and ends at zero, or the procedure is stuck. -/
theorem not_lawful_largest (s : Store) :
    (within 1 18446744073709551615 = .ok ⟨1, 0⟩ ∧
      ¬ Lawful 1 18446744073709551615 (within 1 18446744073709551615)) ∧
    answer? ((Procedure.span 1 18446744073709551615).run s) = none := by
  have wraps : UInt64.size ≤ UInt16.toNat 1 + UInt64.toNat 18446744073709551615 := by decide
  exact ⟨⟨rfl, not_lawful_within_of_wraps wraps⟩, answer?_span_of_wraps wraps s⟩

end Chip8.Span
