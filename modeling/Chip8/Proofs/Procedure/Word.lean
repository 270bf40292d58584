import Chip8.Proofs.Procedure.Agreement

/-!
# Opcodes as procedures

Decoding is one function on opcodes elsewhere. Here an opcode is cut up piece by piece: every shift
has to stay within the word, every product and difference of a mask has to fit, and a number that is
to name a register, a key or an address is looked at before it does. With this the procedures take
an opcode all the way from memory to its effect.

`dispatch` and `cycle` are `execute` and `step` with these checks. They are defined next to them and
not in their place, so that a proof about one instruction need not walk through the shifts first;
`dispatch_eq` and `cycle_eq` carry every such proof over.
-/

namespace Chip8.Procedure

/-! ### Cutting up a word -/

/-- Shifts a word by less than its width. -/
def shiftWord (operation : UInt16 → UInt16 → UInt16) (word : UInt16) (places : Nat) :
    Procedure UInt16 :=
  if places < 16 then pure (operation word (UInt16.ofNat places)) else throw .stuck

/-- The last nibbles of a word, by a mask of ones. -/
def lastNibbles (op : Opcode) (count : UInt8) : Procedure UInt16 :=
  if count = 0 then
    pure 0
  else if count < 4 then do
    let places ← fit UInt8.size (4 * count.toNat)
    let mask ← minus (← shiftWord (· <<< ·) 1 places).toNat 1
    return op &&& UInt16.ofNat mask
  else
    pure op

def nibble (byte : UInt8) : Procedure Nibble :=
  if known : byte.toNat < 16 then pure ⟨byte.toNat, known⟩ else throw .stuck

def place (word : UInt16) : Procedure Address :=
  if inside : word.toNat < 4096 then pure ⟨word.toNat, inside⟩ else throw .stuck

def firstNibble (op : Opcode) : Procedure Nibble := do
  nibble (← shiftWord (· >>> ·) op 12).toUInt8

def secondNibble (op : Opcode) : Procedure Nibble := do
  nibble (← shiftWord (· >>> ·) (op &&& 0x0F00) 8).toUInt8

def thirdNibble (op : Opcode) : Procedure Nibble := do
  nibble (← shiftWord (· >>> ·) (op &&& 0x00F0) 4).toUInt8

def fourthNibble (op : Opcode) : Procedure Nibble := do
  nibble (← lastNibbles op 1).toUInt8

def lowByte (op : Opcode) : Procedure UInt8 :=
  return (← lastNibbles op 2).toUInt8

def address (op : Opcode) : Procedure Address := do
  place (← lastNibbles op 3)

/-! ### From a word to its effect -/

def mapped (op : Opcode) : Option Instruction → Procedure Instruction
  | some instruction => pure instruction
  | none => refuse (.unmapped op)

/-- All four nibbles are cut off first, and the wider operands when they are needed. -/
def decode (op : Opcode) : Procedure Instruction := do
  let family ← firstNibble op
  let x ← secondNibble op
  let y ← thirdNibble op
  let n ← fourthNibble op
  match family.val with
  | 0x0 =>
    if x.val = 0x0 ∧ y.val = 0xE ∧ n.val = 0x0 then pure .clear
    else if x.val = 0x0 ∧ y.val = 0xE ∧ n.val = 0xE then pure .ret
    else refuse (.machineCode op)
  | 0x1 => return .jump (← address op)
  | 0x2 => return .call (← address op)
  | 0x3 => return .skip (.equalsByte x (← lowByte op))
  | 0x4 => return .skip (.differsByte x (← lowByte op))
  | 0x5 => mapped op (if n.val = 0 then some (.skip (.equals x y)) else none)
  | 0x6 => return .setByte x (← lowByte op)
  | 0x7 => return .addByte x (← lowByte op)
  | 0x8 => mapped op ((Arithmetic.ofNibble? n).map (.arithmetic · x y))
  | 0x9 => mapped op (if n.val = 0 then some (.skip (.differs x y)) else none)
  | 0xA => return .setIndex (← address op)
  | 0xB => return .jumpOffset (← address op)
  | 0xC => return .random x (← lowByte op)
  | 0xD => return .draw x y n
  | 0xE => do mapped op (Instruction.ofKeyByte? x (← lowByte op))
  | 0xF => do mapped op (Instruction.ofSystemByte? x (← lowByte op))
  | _ => refuse (.unmapped op)

def dispatch (op : Opcode) : Procedure Unit := do
  apply (← decode op)

/-- The two bytes at the program counter, put together to a word. -/
def fetchWord : Procedure Opcode := do
  let m ← machine
  let place ← span m.pc 2
  let bytes ← need (Cells.slice? m.memory place.start place.stop)
  let high ← need bytes[0]?
  let low ← need bytes[1]?
  return (← shiftWord (· <<< ·) high.toUInt16 8) ||| low.toUInt16

def cycle : Procedure Unit := do
  if (← machine).awaiting.isSome then
    return
  let op ← fetchWord
  let left ← machine
  dispatch op
  if op = 0x00EE then
    advance false
  remember left

/-! ### What the cuts come to -/

theorem run_shiftWord (operation : UInt16 → UInt16 → UInt16) (word : UInt16) {places : Nat}
    (narrow : places < 16) (s : Store) :
    (shiftWord operation word places).run s = .ok (operation word (UInt16.ofNat places)) s := by
  simp [shiftWord, narrow]

theorem run_nibble {byte : UInt8} {number : Nibble} (same : byte.toNat = number.val) (s : Store) :
    (nibble byte).run s = .ok number s := by
  have known : byte.toNat < 16 := by omega
  simp [nibble, same]

theorem run_place {word : UInt16} {target : Address} (same : word.toNat = target.val) (s : Store) :
    (place word).run s = .ok target s := by
  have inside : word.toNat < 4096 := by omega
  simp [place, same]

/-- A narrow shift is not cut down to the width of the word. -/
theorem toNat_places {places : Nat} (narrow : places < 16) :
    (UInt16.ofNat places).toNat % 16 = places := by
  rw [UInt16.toNat_ofNat']
  omega

theorem toNat_shiftRight_narrow (word : UInt16) {places : Nat} (narrow : places < 16) :
    (word >>> UInt16.ofNat places).toNat = word.toNat >>> places := by
  rw [UInt16.toNat_shiftRight, toNat_places narrow]

theorem toNat_one_shiftLeft {places : Nat} (narrow : places < 16) :
    ((1 : UInt16) <<< UInt16.ofNat places).toNat = 1 <<< places := by
  have bounded : 2 ^ places < 2 ^ 16 := Nat.pow_lt_pow_right (by decide) narrow
  rw [UInt16.toNat_shiftLeft, toNat_places narrow, UInt16.toNat_one, Nat.shiftLeft_eq, Nat.one_mul,
    Nat.mod_eq_of_lt bounded]

/-- A mask of ones keeps the lowest bits. -/
theorem toNat_and_ones (word : UInt16) {places : Nat} (narrow : places < 16) :
    (word &&& UInt16.ofNat (1 <<< places - 1)).toNat = word.toNat % 1 <<< places := by
  have bounded : 2 ^ places < 2 ^ 16 := Nat.pow_lt_pow_right (by decide) narrow
  have ones : (2 ^ places - 1) % 2 ^ 16 = 2 ^ places - 1 := Nat.mod_eq_of_lt (by omega)
  rw [UInt16.toNat_and, UInt16.toNat_ofNat', Nat.shiftLeft_eq, Nat.one_mul, ones,
    Nat.and_two_pow_sub_one_eq_mod]

/-- Any count of nibbles can be asked for; a mask is made of those that need one. -/
theorem run_lastNibbles (op : Opcode) (count : UInt8) (s : Store) :
    (lastNibbles op count).run s = .ok (UInt16.ofNat (op.lastNibbles count.toNat)) s := by
  unfold lastNibbles
  by_cases none : count = 0
  · subst none
    rfl
  have some : count.toNat ≠ 0 := fun zero => none (UInt8.toNat_inj.mp zero)
  by_cases few : count < 4
  · have small : count.toNat < 4 := few
    have narrow : 4 * count.toNat < 16 := by omega
    have byte : 4 * count.toNat < UInt8.size := Nat.lt_trans narrow (by decide)
    have positive : 1 ≤ 1 <<< (4 * count.toNat) := by
      rw [Nat.shiftLeft_eq]
      exact Nat.mul_pos Nat.one_pos (Nat.two_pow_pos _)
    have masked : op.lastNibbles count.toNat = op.toNat % 1 <<< (4 * count.toNat) := by
      obtain one | two | three : count.toNat = 1 ∨ count.toNat = 2 ∨ count.toNat = 3 := by omega
      · rw [one]; rfl
      · rw [two]; rfl
      · rw [three]; rfl
    simp only [none, few, if_true, if_false, EStateM.run_bind, run_fit byte,
      run_shiftWord _ _ narrow,
      toNat_one_shiftLeft narrow, run_minus positive, EStateM.run_pure]
    rw [masked, ← toNat_and_ones op narrow, UInt16.ofNat_toNat]
  · -- The whole word is asked for, and a mask that long would be shifted too far.
    have many : 4 ≤ count.toNat := Nat.le_of_not_lt few
    have whole : op.lastNibbles count.toNat = op.toNat := by
      unfold Opcode.lastNibbles
      split <;> omega
    simp only [none, few, if_false, EStateM.run_pure, whole, UInt16.ofNat_toNat]

theorem run_firstNibble (op : Opcode) (s : Store) : (firstNibble op).run s = .ok op.family s := by
  have bound := op.toNat_lt
  have top : op.toNat >>> 12 < 16 := by
    rw [Nat.shiftRight_eq_div_pow]
    omega
  have same : (op >>> UInt16.ofNat 12).toUInt8.toNat = op.family.val := by
    rw [UInt16.toNat_toUInt8, toNat_shiftRight_narrow op (by decide)]
    simp only [Opcode.family, Opcode.nibble]
    omega
  simp only [firstNibble, EStateM.run_bind, run_shiftWord _ op (show 12 < 16 by decide),
    run_nibble same]

/-- A nibble masked where it stands and then shifted down. -/
theorem toNat_and_shiftRight (op : Opcode) (mask : UInt16) {places : Nat} (narrow : places < 4)
    (ones : mask.toNat >>> (4 * places) = 15) :
    ((op &&& mask) >>> UInt16.ofNat (4 * places)).toUInt8.toNat = (op.nibble places).val := by
  have low : op.toNat >>> (4 * places) &&& 15 = op.toNat >>> (4 * places) % 16 :=
    Nat.and_two_pow_sub_one_eq_mod _ 4
  rw [UInt16.toNat_toUInt8, toNat_shiftRight_narrow _ (by omega), UInt16.toNat_and,
    Nat.shiftRight_and_distrib, ones, low]
  simp only [Opcode.nibble]
  omega

theorem run_secondNibble (op : Opcode) (s : Store) : (secondNibble op).run s = .ok op.x s := by
  have same := toNat_and_shiftRight op 0x0F00 (show 2 < 4 by decide) rfl
  simp only [secondNibble, EStateM.run_bind, run_shiftWord _ _ (show 8 < 16 by decide),
    run_nibble same]
  rfl

theorem run_thirdNibble (op : Opcode) (s : Store) : (thirdNibble op).run s = .ok op.y s := by
  have same := toNat_and_shiftRight op 0x00F0 (show 1 < 4 by decide) rfl
  simp only [thirdNibble, EStateM.run_bind, run_shiftWord _ _ (show 4 < 16 by decide),
    run_nibble same]
  rfl

theorem run_fourthNibble (op : Opcode) (s : Store) : (fourthNibble op).run s = .ok op.n s := by
  have same : (UInt16.ofNat (op.toNat % 16)).toUInt8.toNat = op.n.val := by
    rw [UInt16.toNat_toUInt8, UInt16.toNat_ofNat']
    simp only [Opcode.n, Opcode.nibble, Nat.mul_zero, Nat.shiftRight_zero]
    omega
  simp only [fourthNibble, EStateM.run_bind, run_lastNibbles]
  exact run_nibble same s

theorem run_lowByte (op : Opcode) (s : Store) : (lowByte op).run s = .ok op.kk s := by
  have same : (UInt16.ofNat (op.toNat % 256)).toUInt8 = op.kk := by
    rw [← UInt8.toNat_inj, UInt16.toNat_toUInt8, UInt16.toNat_ofNat', Opcode.kk,
      UInt8.toNat_ofNat']
    omega
  simp only [lowByte, EStateM.run_bind, run_lastNibbles]
  rw [← same]
  rfl

theorem run_address (op : Opcode) (s : Store) : (address op).run s = .ok op.address s := by
  have same : (UInt16.ofNat (op.toNat % 4096)).toNat = op.address.val := by
    rw [UInt16.toNat_ofNat', Opcode.address]
    dsimp only
    omega
  simp only [address, EStateM.run_bind, run_lastNibbles]
  exact run_place same s

/-! ### What the procedures come to -/

/-- Outside the first family, an opcode is looked up as it is when it is decoded at once. -/
theorem run_decode_of_outside {op : Opcode} (outside : op.family.val ≠ 0) (s : Store) :
    (decode op).run s = (mapped op (Instruction.ofFamily? op)).run s := by
  simp only [decode, EStateM.run_bind, run_firstNibble, run_secondNibble, run_thirdNibble,
    run_fourthNibble]
  unfold Instruction.ofFamily?
  -- What is cut off for an operand does not depend on the family.
  generalize op.family = family at outside ⊢
  fin_cases family <;> simp [run_address, run_lowByte, mapped] at outside ⊢

/-- Decoded piece by piece, an opcode stands for the same instruction, or for none. -/
theorem run_decode (op : Opcode) (s : Store) :
    (decode op).run s = match op.decode with
      | .ok instruction => .ok instruction s
      | .error cause => .error (.fault cause) s := by
  by_cases first : op.family.val = 0
  · -- In the first family the other three nibbles decide.
    have whole (word : Opcode) (low : word.family.val = 0) : op = word ↔
        op.x.val = word.x.val ∧ op.y.val = word.y.val ∧ op.n.val = word.n.val := by
      rw [op.eq_iff_nibbles word]
      simp only [Fin.ext_iff]
      exact ⟨And.right, fun rest => ⟨first.trans low.symm, rest⟩⟩
    have clear : op = 0x00E0 ↔ op.x.val = 0x0 ∧ op.y.val = 0xE ∧ op.n.val = 0x0 :=
      whole 0x00E0 rfl
    have ret : op = 0x00EE ↔ op.x.val = 0x0 ∧ op.y.val = 0xE ∧ op.n.val = 0xE :=
      whole 0x00EE rfl
    simp only [decode, EStateM.run_bind, run_firstNibble, run_secondNibble, run_thirdNibble,
      run_fourthNibble, Opcode.decode, first, if_true, ← clear, ← ret]
    split
    · rfl
    · split <;> rfl
  · rw [run_decode_of_outside first]
    unfold Opcode.decode
    rw [if_neg first]
    cases Instruction.ofFamily? op with
    | none => rfl
    | some instruction => rfl

/-- An opcode that is cut up piece by piece has the same effect. -/
theorem dispatch_eq (op : Opcode) : dispatch op = execute op := by
  funext s
  change (dispatch op).run s = (execute op).run s
  rw [dispatch, EStateM.run_bind, run_decode]
  unfold execute
  cases op.decode with
  | ok instruction => rfl
  | error cause => rfl

theorem fetchWord_eq : fetchWord = fetch := by
  unfold fetchWord fetch
  simp only [shiftWord, show 8 < 16 by decide, if_true, pure_bind]
  rfl

theorem cycle_eq : cycle = step := by
  unfold cycle step
  simp only [fetchWord_eq, dispatch_eq]

end Chip8.Procedure
