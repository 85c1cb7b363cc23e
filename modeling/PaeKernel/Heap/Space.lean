import PaeKernel.Heap.Block
import PaeKernel.Heap.Error
import PaeKernel.Memory

/-!
# Heap spaces

A space is a run of words. Its first two words hold the address of the next space and its own
length, its last two words are zero, and the words between are cut into blocks:

    unit 0  next space        unit 2 ... len-3  blocks
    unit 1  length            unit len-2, len-1  zero

Blocks name their predecessor by address. `blocks` is the view of a space as a list of blocks; it
stops at the first header that cannot be right, so it ends on memory of any contents. `take` marks
a free block as used and splits off what is left, `release` frees a block and merges it with its
free neighbours. Reading or writing a unit that is not in the space panics.
-/

namespace PaeKernel

/-- The units of a space before its first block. -/
def spaceHeaderUnits : Nat := 2

/-- The index of the first block. -/
def firstBlock : Nat := spaceHeaderUnits

/-- A space holds its header, one block with a unit of payload, and the closing zeros. -/
def minSpaceUnits : Nat := spaceHeaderUnits + headerUnits + 1 + headerUnits

/-- A run of words in the address space. -/
@[ext] structure Extent where
  base : Nat
  len : Nat
  aligned : base % unitSize = 0
  bounded : base + unitSize * len < wordLimit
  deriving DecidableEq

/-- A run of words long enough to be a heap space. -/
@[ext] structure Space extends Extent where
  long : minSpaceUnits ≤ len
  deriving DecidableEq

/-- The check of a length of so many units at `base`, made before a space is used. -/
def checkLength (base len : Nat) : Except HeapError Unit :=
  if len < minSpaceUnits then .error (.invalidRange base (base + len * unitSize))
  else if maxBlockUnits < len - minSpaceUnits then .error (.spaceTooLarge len)
  else .ok ()

namespace Space

/-- The index of the closing zeros. -/
def sentinel (s : Space) : Nat := s.len - headerUnits

/-- The units that blocks share. -/
def blockUnits (s : Space) : Nat := s.sentinel - firstBlock

/-- The address of a unit. -/
def addrOf (s : Space) (index : Nat) : Nat := s.base + index * unitSize

/-- The address after the space. -/
def endAddr (s : Space) : Nat := s.addrOf s.len

/-- Whether an address lies in the space. -/
def contains (s : Space) (address : Nat) : Bool := s.base ≤ address && address < s.endAddr

/-- The unit that starts at an address. -/
def indexOf (s : Space) (address : Nat) : Option Nat :=
  if s.base ≤ address ∧ (address - s.base) % unitSize = 0
      ∧ (address - s.base) / unitSize < s.len then
    some ((address - s.base) / unitSize)
  else none

/-! ### The view of a space -/

/-- The word in a unit. -/
def word (s : Space) (m : Memory) (index : Nat) : Nat := m.read (s.addrOf index)

/-- The size word of the block at an index. -/
def sizeAt (s : Space) (m : Memory) (index : Nat) : BlockSize := ⟨s.word m (index + 1)⟩

/-- The predecessor that the block at an index names. -/
def prevAt (s : Space) (m : Memory) (index : Nat) : Option Nat :=
  if s.word m index = 0 then none else s.indexOf (s.word m index)

/-- The blocks from an index on. -/
def blocksFrom (s : Space) (m : Memory) (index : Nat) : List Block :=
  if index + headerUnits ≤ s.sentinel then
    if headerUnits ≤ (s.sizeAt m index).units
        ∧ index + (s.sizeAt m index).units ≤ s.sentinel then
      { index, units := (s.sizeAt m index).units, used := (s.sizeAt m index).used,
        prev := s.prevAt m index }
        :: blocksFrom s m (index + (s.sizeAt m index).units)
    else []
  else []
termination_by s.sentinel - index
decreasing_by simp only [headerUnits] at *; omega

/-- The blocks of the space. -/
def blocks (s : Space) (m : Memory) : List Block := s.blocksFrom m firstBlock

/-- The first free block of at least so many units. -/
def findFree (s : Space) (m : Memory) (units : Nat) : Option Nat :=
  ((s.blocks m).find? (Block.fits units)).map Block.index

/-- The block whose payload starts at an address. -/
def blockForPayload (s : Space) (m : Memory) (address : Nat) : Option Block := do
  let index ← s.indexOf address
  if headerUnits ≤ index then (s.blocks m).find? (·.index == index - headerUnits) else none

/-! ### Checked access -/

/-- Reads a unit of the space. -/
def load (s : Space) (index : Nat) : Exec Memory Nat := do
  Exec.require (index < s.len) (.unitOutside index s.len)
  Exec.view (s.word · index)

/-- Writes a unit of the space. -/
def store (s : Space) (index value : Nat) : Exec Memory Unit := do
  Exec.require (index < s.len) (.unitOutside index s.len)
  Exec.update (·.write (s.addrOf index) value)

/-- Reads the size word of a block. -/
def size (s : Space) (index : Nat) : Exec Memory BlockSize :=
  return ⟨← s.load (index + 1)⟩

/-- Writes the size word of a block. -/
def setSize (s : Space) (index : Nat) (size : BlockSize) : Exec Memory Unit :=
  s.store (index + 1) size.raw

/-- Reads which block comes before this one. -/
def prev (s : Space) (index : Nat) : Exec Memory (Option Nat) := do
  let link ← s.load index
  return if link = 0 then none else s.indexOf link

/-- Writes which block comes before this one. -/
def setPrev (s : Space) (index : Nat) (prev : Option Nat) : Exec Memory Unit :=
  s.store index ((prev.map s.addrOf).getD 0)

/-- Finds which block comes after this one. -/
def next (s : Space) (index : Nat) : Exec Memory (Option Nat) := do
  let size ← s.size index
  return if index + size.units < s.sentinel then some (index + size.units) else none

/-- The address of a block's payload. -/
def payload (s : Space) (index : Nat) : Exec Memory Nat := do
  Exec.require (index + headerUnits < s.len) (.unitOutside (index + headerUnits) s.len)
  return s.addrOf (index + headerUnits)

/-! ### Changes -/

/-- Makes the space one free block and gives back the units of that block. -/
def format (s : Space) (nextSpace : Nat) : Exec Memory Nat := do
  s.store 0 nextSpace
  s.store 1 s.len
  s.setPrev firstBlock none
  s.setSize firstBlock (← Exec.check (BlockSize.ofFree s.blockUnits))
  s.store s.sentinel 0
  s.store (s.sentinel + 1) 0
  return s.blockUnits

/-- Makes the block after this one, if there is one, name this one as its predecessor. -/
def relink (s : Space) (index : Nat) : Exec Memory Unit := do
  match ← s.next index with
  | none => pure ()
  | some after => s.setPrev after (some index)

/-- Marks a free block as used; what it has beyond the request becomes a free block if that can
hold a header. Gives back the units that are now in use. -/
def take (s : Space) (index units : Nat) : Exec Memory Nat := do
  let found ← s.size index
  Exec.require (found.used = false ∧ units ≤ found.units) .unfitBlock
  if found.units - units < headerUnits then
    s.setSize index (← Exec.check (BlockSize.ofUsed found.units))
    return found.units
  else
    s.setSize index (← Exec.check (BlockSize.ofUsed units))
    s.setPrev (index + units) (some index)
    s.setSize (index + units) (← Exec.check (BlockSize.ofFree (found.units - units)))
    s.relink (index + units)
    return units

/-- Merges a block just freed into a free predecessor; gives back where the free block starts. -/
def mergeBack (s : Space) (index freed : Nat) : Exec Memory Nat := do
  match ← s.prev index with
  | none => return index
  | some before =>
    let size ← s.size before
    if size.used then return index
    else
      s.setSize before (← Exec.check (BlockSize.ofFree (size.units + freed)))
      return before

/-- Merges a free successor into a free block. -/
def mergeNext (s : Space) (start : Nat) : Exec Memory Unit := do
  match ← s.next start with
  | none => pure ()
  | some after =>
    let size ← s.size after
    if size.used then pure ()
    else
      let own ← s.size start
      s.setSize start (← Exec.check (BlockSize.ofFree (own.units + size.units)))

/-- Frees a used block. Gives back its units and where the free block it became part of starts. -/
def release (s : Space) (index : Nat) : Exec Memory (Nat × Nat) := do
  let size ← s.size index
  Exec.require (size.used = true) .releaseOfFree
  s.setSize index (← Exec.check (BlockSize.ofFree size.units))
  let start ← s.mergeBack index size.units
  s.mergeNext start
  s.relink start
  return (size.units, start)

/-! ### First facts -/

theorem sentinel_add (s : Space) : s.sentinel + 2 = s.len := by
  have := s.long
  simp only [sentinel, headerUnits, minSpaceUnits, spaceHeaderUnits] at *; omega

theorem indexOf_addrOf (s : Space) {index : Nat} (h : index < s.len) :
    s.indexOf (s.addrOf index) = some index := by
  have hd : s.base + index * unitSize - s.base = index * unitSize := by omega
  simp only [indexOf, addrOf, hd, Nat.mul_mod_left,
    Nat.mul_div_cancel index (show 0 < unitSize by decide)]
  rw [if_pos ⟨by omega, trivial, h⟩]

theorem addrOf_indexOf {s : Space} {address index : Nat} (h : s.indexOf address = some index) :
    s.addrOf index = address ∧ index < s.len := by
  unfold indexOf at h
  split at h
  · rename_i hc
    cases h
    refine ⟨?_, hc.2.2⟩
    have := hc.2.1
    simp only [addrOf, unitSize] at *
    omega
  · cases h

theorem addrOf_div (s : Space) (index : Nat) : s.addrOf index / 8 = s.base / 8 + index := by
  simp only [addrOf, unitSize]; omega

theorem word_store_same (s : Space) (m : Memory) (index : Nat) {value : Nat}
    (h : value < wordLimit) : s.word (m.write (s.addrOf index) value) index = value :=
  m.read_write_same _ h

theorem word_store_of_ne (s : Space) (m : Memory) {i j : Nat} (value : Nat) (h : i ≠ j) :
    s.word (m.write (s.addrOf i) value) j = s.word m j :=
  m.read_write_of_ne value (by rw [addrOf_div, addrOf_div]; omega)

theorem load_of_lt {s : Space} {index : Nat} (h : index < s.len) (m : Memory) :
    s.load index m = (.ok (s.word m index), m) := by
  simp [load, Exec.bind_apply, Exec.require_apply, h]

theorem store_of_lt {s : Space} {index : Nat} (h : index < s.len) (value : Nat) (m : Memory) :
    s.store index value m = (.ok (), m.write (s.addrOf index) value) := by
  simp [store, Exec.bind_apply, Exec.require_apply, h]

end Space

end PaeKernel
