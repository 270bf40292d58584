import Chip8.Cells
import Chip8.Fault

/-!
Memory and the spans that lie inside it. Reading and writing go through a span, so whoever has to
fail for want of memory fails before writing.
-/

namespace Chip8

abbrev Memory := Vector UInt8 4096

namespace Memory

def size : Nat := 4096

/-- Where roms are loaded and execution begins. -/
def programStart : UInt16 := 0x200

/-- How many bytes a rom can fill. -/
def programSize : Nat := size - programStart.toNat

end Memory

/-- A run of addresses from `start` up to, not including, `stop`. -/
structure Span where
  start : Nat
  stop : Nat
  deriving DecidableEq, Repr

/--
The span of `length` bytes from `start` on, if memory has them all. An empty span is never refused
and lies at `start` or at the end of memory. The sum is one of 64-bit words and wraps around, as in
a build without overflow checks.
-/
def Span.within (start : UInt16) (length : UInt64) : Except Fault Span :=
  if length = 0 then
    .ok ⟨min start.toNat Memory.size, min start.toNat Memory.size⟩
  else
    let stop := start.toUInt64 + length
    if stop.toNat ≤ Memory.size then .ok ⟨start.toNat, stop.toNat⟩
    else .error (.outOfBounds (stop.toNat - 1))

/-- As long as the sum fits into a word, it is exact. -/
theorem Span.within_of_fits (start : UInt16) (length : UInt64)
    (fits : start.toNat + length.toNat < UInt64.size) :
    Span.within start length =
      if length = 0 then .ok ⟨min start.toNat Memory.size, min start.toNat Memory.size⟩
      else if start.toNat + length.toNat ≤ Memory.size then
        .ok ⟨start.toNat, start.toNat + length.toNat⟩
      else .error (.outOfBounds (start.toNat + length.toNat - 1)) := by
  have sum : (start.toUInt64 + length).toNat = start.toNat + length.toNat := by
    rw [UInt64.toNat_add, UInt16.toNat_toUInt64]
    exact Nat.mod_eq_of_lt fits
  simp only [Span.within, sum]

/-- The spans of instructions are so short that their sums are exact. -/
theorem Span.within_ofNat (start : UInt16) (length : Nat) (short : length ≤ 16) :
    Span.within start (UInt64.ofNat length) =
      if length = 0 then .ok ⟨min start.toNat Memory.size, min start.toNat Memory.size⟩
      else if start.toNat + length ≤ Memory.size then .ok ⟨start.toNat, start.toNat + length⟩
      else .error (.outOfBounds (start.toNat + length - 1)) := by
  have bound := start.toNat_lt
  have size : UInt64.size = 18446744073709551616 := rfl
  have width : (UInt64.ofNat length).toNat = length := by
    rw [UInt64.toNat_ofNat']
    omega
  have empty : UInt64.ofNat length = 0 ↔ length = 0 := by
    rw [← UInt64.toNat_inj, width, UInt64.toNat_zero]
  rw [Span.within_of_fits start _ (by omega)]
  simp only [width, empty]

namespace Memory

def read (memory : Memory) (span : Span) : List UInt8 :=
  Cells.slice memory span.start span.stop

def write (memory : Memory) (span : Span) (bytes : List UInt8) : Memory :=
  Cells.overwrite memory span.start bytes

end Memory

end Chip8
