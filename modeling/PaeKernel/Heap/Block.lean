import PaeKernel.Exec

/-!
# Blocks

The heap counts in units of one word. A block starts with a header of two units: the address of the
block before it (zero for the first) and its size word, which holds the units of the whole block and
one bit that tells whether the block is in use.
-/

namespace PaeKernel

/-- The bytes in a unit; payloads are aligned to it. -/
def unitSize : Nat := 8

/-- The units of a block that are not payload. -/
def headerUnits : Nat := 2

/-- The bit of a size word that marks a block in use. -/
def usedBit : Nat := 0x8000000000000000

/-- The most units a size word can hold. -/
def maxBlockUnits : Nat := usedBit - 1

/-- The units of the smallest block whose payload holds `size` bytes and at least one unit. -/
def unitsFor (size : Nat) : Option Nat :=
  let units := max 1 ((size + 7) / 8) + headerUnits
  if units ≤ maxBlockUnits then some units else none

/-- A size word. -/
@[ext] structure BlockSize where
  raw : Nat
  deriving Repr, DecidableEq

namespace BlockSize

/-- The units of the block. -/
def units (s : BlockSize) : Nat := s.raw % usedBit

/-- Whether the block is in use. -/
def used (s : BlockSize) : Bool := s.raw / usedBit % 2 == 1

/-- Whether the word ends the chain of blocks. -/
def isSentinel (s : BlockSize) : Bool := s.raw == 0

/-- The size word of a free block. -/
def ofFree (units : Nat) : Except Panic BlockSize :=
  if units ≤ maxBlockUnits then .ok ⟨units⟩ else .error .blockTooLarge

/-- The size word of a block in use. -/
def ofUsed (units : Nat) : Except Panic BlockSize :=
  if units ≤ maxBlockUnits then .ok ⟨units + usedBit⟩ else .error .blockTooLarge

/-- How a size word is written for a developer. -/
def describe (s : BlockSize) : String :=
  s!"{s.units} units " ++ if s.used then "used" else "free"

theorem units_le (s : BlockSize) : s.units ≤ maxBlockUnits :=
  Nat.le_sub_one_of_lt (Nat.mod_lt _ (by decide))

theorem ofFree_of_le {units : Nat} (h : units ≤ maxBlockUnits) : ofFree units = .ok ⟨units⟩ := by
  rw [ofFree, if_pos h]

theorem ofUsed_of_le {units : Nat} (h : units ≤ maxBlockUnits) :
    ofUsed units = .ok ⟨units + usedBit⟩ := by
  rw [ofUsed, if_pos h]

theorem units_free {units : Nat} (h : units ≤ maxBlockUnits) : (⟨units⟩ : BlockSize).units = units :=
  Nat.mod_eq_of_lt (by simp only [maxBlockUnits, usedBit] at *; omega)

theorem used_free {units : Nat} (h : units ≤ maxBlockUnits) :
    (⟨units⟩ : BlockSize).used = false := by
  have hz : units / usedBit = 0 :=
    Nat.div_eq_of_lt (by simp only [maxBlockUnits, usedBit] at *; omega)
  simp [used, hz]

theorem units_used {units : Nat} (h : units ≤ maxBlockUnits) :
    (⟨units + usedBit⟩ : BlockSize).units = units := by
  simp only [BlockSize.units, maxBlockUnits, usedBit] at *; omega

theorem used_used {units : Nat} (h : units ≤ maxBlockUnits) :
    (⟨units + usedBit⟩ : BlockSize).used = true := by
  have ho : (units + usedBit) / usedBit = 1 := by simp only [maxBlockUnits, usedBit] at *; omega
  simp [used, ho]

end BlockSize

/-- One block as a walk over a space sees it. -/
@[ext] structure Block where
  index : Nat
  units : Nat
  used : Bool
  prev : Option Nat
  deriving Repr, DecidableEq

namespace Block

/-- The index after the block. -/
def stop (b : Block) : Nat := b.index + b.units

/-- Whether the block can serve a request for so many units. -/
def fits (units : Nat) (b : Block) : Bool := !b.used && units ≤ b.units

end Block

theorem unitsFor_eq_some_iff {size units : Nat} :
    unitsFor size = some units ↔
      units = max 1 ((size + 7) / 8) + 2 ∧ units ≤ maxBlockUnits := by
  by_cases h : max 1 ((size + 7) / 8) + 2 ≤ maxBlockUnits
  · simp only [unitsFor, headerUnits, h, if_true, Option.some.injEq]
    exact ⟨fun e => ⟨e.symm, e ▸ h⟩, fun e => e.1.symm⟩
  · simp only [unitsFor, headerUnits, h, if_false, reduceCtorEq, false_iff]
    exact fun e => h (e.1 ▸ e.2)

end PaeKernel
