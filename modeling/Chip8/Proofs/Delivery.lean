import Chip8.Console
import Mathlib.Logic.Relation

/-!
# What a reader delivers

A rom comes in pieces, and where one piece ends and the next begins is chance. `Delivers` says what
a reader delivers without reading step by step: the data of all pieces up to the first empty one, or
the reason of the first piece that is broken. `Recut` changes the pieces and not what they deliver.

## Main result

`load_delivered`: a console takes in a rom that is delivered and fits, and is left as it was by
every other; the answer depends on what is delivered alone, and so is the same for every way of
cutting it into pieces.
-/

namespace Chip8

namespace Rom

namespace Piece

/-- Behind such a piece reading goes on. -/
def GoesOn : Piece → Prop
  | .bytes data => data ≠ []
  | .interrupted => True
  | .broken _ => False

def data : Piece → List UInt8
  | .bytes data => data
  | _ => []

end Piece

/-- What a reader delivers: a reason, however much came before it, or all bytes before the end. -/
inductive Delivers : List Piece → Except String (List UInt8) → Prop
  | broken {before : List Piece} (onward : ∀ piece ∈ before, piece.GoesOn) (reason : String)
      (rest : List Piece) : Delivers (before ++ .broken reason :: rest) (.error reason)
  /-- What comes behind an empty piece is never read. -/
  | ended {before rest : List Piece} (onward : ∀ piece ∈ before, piece.GoesOn)
      (ends : rest = [] ∨ ∃ unread, rest = .bytes [] :: unread) :
      Delivers (before ++ rest) (.ok (before.flatMap Piece.data))

/-- Pieces that are cut once more, or interrupted once more. -/
inductive Recut : List Piece → List Piece → Prop
  | cut (before rest : List Piece) {first second : List UInt8} (start : first ≠ [])
      (stop : second ≠ []) :
      Recut (before ++ .bytes (first ++ second) :: rest)
        (before ++ .bytes first :: .bytes second :: rest)
  | interrupt (before rest : List Piece) : Recut (before ++ rest) (before ++ .interrupted :: rest)

/-! ### Reading piece by piece -/

theorem gather_cons {piece : Piece} (onward : piece.GoesOn) (rest : List Piece) :
    gather (piece :: rest) = (gather rest).map (piece.data ++ ·) := by
  cases piece with
  | bytes data =>
    cases data with
    | nil => exact absurd rfl onward
    | cons first data => rfl
  | interrupted =>
    cases gathered : gather rest with
    | error reason => exact gathered
    | ok bytes => exact gathered
  | broken reason => exact absurd onward id

/-- The pieces in front of the end, or of the first broken piece, only lend their data. -/
theorem gather_append {before : List Piece} (onward : ∀ piece ∈ before, piece.GoesOn)
    (rest : List Piece) :
    gather (before ++ rest) = (gather rest).map (before.flatMap Piece.data ++ ·) := by
  induction before with
  | nil =>
    cases gathered : gather rest with
    | error reason => exact gathered
    | ok bytes => exact gathered
  | cons piece before ih =>
    rw [List.cons_append, gather_cons (onward piece List.mem_cons_self),
      ih fun later member => onward later (List.mem_cons_of_mem _ member)]
    cases gather rest with
    | error reason => rfl
    | ok bytes => simp only [Except.map, List.flatMap_cons, List.append_assoc]

theorem Delivers.cons {piece : Piece} (onward : piece.GoesOn) {rest : List Piece}
    {delivered : Except String (List UInt8)} (delivers : Delivers rest delivered) :
    Delivers (piece :: rest) (delivered.map (piece.data ++ ·)) := by
  cases delivers with
  | broken goesOn reason rest =>
    exact @Delivers.broken (piece :: _) (List.forall_mem_cons.mpr ⟨onward, goesOn⟩) reason rest
  | ended goesOn ends =>
    exact @Delivers.ended (piece :: _) _ (List.forall_mem_cons.mpr ⟨onward, goesOn⟩) ends

theorem delivers_gather (pieces : List Piece) : Delivers pieces (gather pieces) := by
  have none : ∀ piece ∈ ([] : List Piece), piece.GoesOn := by simp
  induction pieces with
  | nil => exact .ended none (.inl rfl)
  | cons piece rest ih =>
    by_cases onward : piece.GoesOn
    · rw [gather_cons onward]
      exact ih.cons onward
    · -- Reading stops at a piece that is broken or empty.
      cases piece with
      | bytes data =>
        have empty : data = [] := Decidable.not_not.mp onward
        subst empty
        exact .ended none (.inr ⟨rest, rfl⟩)
      | interrupted => exact absurd trivial onward
      | broken reason => exact .broken none reason rest

/-- Reading piece by piece comes to what the reader delivers, and to nothing else. -/
theorem gather_eq_iff (pieces : List Piece) (delivered : Except String (List UInt8)) :
    gather pieces = delivered ↔ Delivers pieces delivered := by
  constructor
  · rintro rfl
    exact delivers_gather pieces
  · intro delivers
    cases delivers with
    | broken onward reason rest =>
      rw [gather_append onward]
      rfl
    | ended onward ends =>
      rw [gather_append onward]
      obtain rfl | ⟨unread, rfl⟩ := ends
      · simp only [gather, Except.map, List.append_nil]
      · simp only [gather, Except.map, List.append_nil]

/-! ### Other pieces -/

/-- What has been read before does not tell apart what is read later. -/
theorem gather_append_congr (before : List Piece) {rest other : List Piece}
    (same : gather rest = gather other) : gather (before ++ rest) = gather (before ++ other) := by
  induction before with
  | nil => exact same
  | cons piece before ih =>
    by_cases onward : piece.GoesOn
    · rw [List.cons_append, List.cons_append, gather_cons onward, gather_cons onward, ih]
    · -- Nothing behind this piece is read.
      cases piece with
      | bytes data =>
        have empty : data = [] := Decidable.not_not.mp onward
        subst empty
        rfl
      | interrupted => exact absurd trivial onward
      | broken reason => rfl

theorem Recut.gather_eq {pieces other : List Piece} (recut : Recut pieces other) :
    gather pieces = gather other := by
  cases recut with
  | @cut before rest first second start stop =>
    refine gather_append_congr before ?_
    have whole : (Piece.bytes (first ++ second)).GoesOn := List.append_ne_nil_of_left_ne_nil start _
    have left : (Piece.bytes first).GoesOn := start
    have right : (Piece.bytes second).GoesOn := stop
    rw [gather_cons whole, gather_cons left, gather_cons right]
    cases gather rest with
    | error reason => rfl
    | ok bytes => simp only [Except.map, Piece.data, List.append_assoc]
  | interrupt before rest => exact gather_append_congr before rfl

theorem gather_eq_of_recut {pieces other : List Piece}
    (recut : Relation.EqvGen Recut pieces other) : gather pieces = gather other := by
  induction recut with
  | rel _ _ recut => exact recut.gather_eq
  | refl => rfl
  | symm _ _ _ ih => exact ih.symm
  | trans _ _ _ _ _ first second => exact first.trans second

end Rom

namespace Console

/-- A console that has taken in a rom: the rom lies in program space, and nothing else has changed.
-/
structure Filled (c : Console) (rom : List UInt8) (after : Console) : Prop where
  inside : ∀ place < rom.length, after.machine.memory[0x200 + place]? = rom[place]?
  outside : ∀ address : Fin 4096, address.val < 0x200 ∨ 0x200 + rom.length ≤ address.val →
    after.machine.memory.get address = c.machine.memory.get address
  rest : after = { c with machine := { c.machine with memory := after.machine.memory } }

theorem filled_of_fits (c : Console) {rom : List UInt8} (fits : rom.length ≤ 3584) :
    c.Filled rom (c.edit fun m => { m with memory := m.memory.withRom rom }) where
  inside place held := by
    have inside : 0x200 + place < 4096 := by omega
    have written := Cells.getElem_overwrite c.machine.memory 0x200 rom (0x200 + place) inside
    rw [if_pos (Nat.le_add_right 0x200 place), Nat.add_sub_cancel_left, List.getD_eq_getElem?_getD,
      List.getElem?_eq_getElem held, Option.getD_some] at written
    rw [List.getElem?_eq_getElem held, ← written]
    exact Vector.getElem?_eq_getElem inside
  outside address apart := by
    refine Decidable.byContradiction fun changed => ?_
    have inside : 0x200 ≤ address.val ∧ address.val < 0x200 + rom.length :=
      Cells.inside_of_overwrite_ne changed
    omega
  rest := rfl

/-- A console sees of the pieces only what is read from them. -/
theorem load_congr (c : Console) {pieces others : List Rom.Piece}
    (same : Rom.gather others = Rom.gather pieces) : c.load others = c.load pieces := by
  simp only [load, Rom.read, same]

/-- A rom that breaks is refused with its reason, however much of it has come by then, and otherwise
one that is too large with its size. Either leaves the console as it was. Every other rom is taken
in, and nothing changes but the bytes that it fills. Whatever delivers the same has the same effect,
so pieces may be cut or put together, and interrupted, at will. -/
theorem load_delivered (c : Console) (pieces : List Rom.Piece) :
    (∃ delivered, Rom.Delivers pieces delivered) ∧
    (∀ reason, Rom.Delivers pieces (.error reason) →
      (c.load pieces).answer = .error (.unreadable reason) ∧ (c.load pieces).console = c) ∧
    (∀ rom, Rom.Delivers pieces (.ok rom) →
      (3584 < rom.length → (c.load pieces).answer = .error (.tooLarge rom.length 3584) ∧
        (c.load pieces).console = c) ∧
      (rom.length ≤ 3584 → (c.load pieces).answer = .ok rom.length ∧
        c.Filled rom (c.load pieces).console)) ∧
    (∀ others delivered, Rom.Delivers pieces delivered → Rom.Delivers others delivered →
      c.load others = c.load pieces) ∧
    (∀ others, Relation.EqvGen Rom.Recut pieces others → c.load others = c.load pieces) := by
  have limit : Memory.programSize = 3584 := rfl
  refine ⟨⟨_, Rom.delivers_gather pieces⟩, fun reason breaks => ?_,
    fun rom delivers => ⟨?_, ?_⟩, ?_, ?_⟩
  · have gathered := (Rom.gather_eq_iff _ _).mpr breaks
    simp only [load, Rom.read, gathered, and_self]
  · intro large
    have gathered := (Rom.gather_eq_iff _ _).mpr delivers
    simp only [load, Rom.read, gathered, limit, if_neg (Nat.not_le.mpr large), and_self]
  · intro fits
    have gathered := (Rom.gather_eq_iff _ _).mpr delivers
    simp only [load, Rom.read, gathered, limit, if_pos fits, true_and]
    exact c.filled_of_fits fits
  · intro others delivered delivers same
    rw [← Rom.gather_eq_iff] at delivers same
    exact c.load_congr (same.trans delivers.symm)
  · exact fun others recut => c.load_congr (Rom.gather_eq_of_recut recut).symm

/-- The reason that comes late wins over a rom that is too large by then. -/
theorem load_delivered_late :
    let pieces : List Rom.Piece := [.bytes (List.replicate 4000 0xFF), .interrupted, .broken "late"]
    (initial.load pieces).answer = .error (.unreadable "late") ∧
      (initial.load pieces).console = initial := by
  intro pieces
  have filled : List.replicate 4000 (0xFF : UInt8) ≠ [] :=
    List.cons_ne_nil 0xFF (List.replicate 3999 0xFF)
  have onward :
      ∀ piece ∈ [.bytes (List.replicate 4000 0xFF), .interrupted], Rom.Piece.GoesOn piece :=
    List.forall_mem_cons.mpr ⟨filled, List.forall_mem_singleton.mpr trivial⟩
  obtain ⟨-, refused, -⟩ := load_delivered initial pieces
  exact refused "late" (.broken onward "late" [])

end Console

end Chip8
