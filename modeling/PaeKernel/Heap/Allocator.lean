import PaeKernel.Heap.Allocation

/-!
# The allocator of the whole program

The adapter between requests with a layout and the heap. Every call holds the heap's lock with
interrupts off from its start to its end, so it is one step of the arena. Payloads are aligned to
units and no further: a larger alignment is refused. Zero stands for no pointer.
-/

namespace PaeKernel

/-- No object is larger than this many bytes less one. -/
def objectLimit : Nat := 0x8000000000000000

/-- A size in bytes and an alignment, which is a power of two that the size can be rounded up to. -/
structure Layout where
  size : Nat
  align : Nat
  power : align ≠ 0 ∧ align &&& (align - 1) = 0
  fits : size + align ≤ objectLimit
  deriving DecidableEq

/-- The layout with this size and alignment. -/
def Layout.make? (size align : Nat) : Option Layout :=
  if h : (align ≠ 0 ∧ align &&& (align - 1) = 0) ∧ size + align ≤ objectLimit then
    some ⟨size, align, h.1, h.2⟩
  else none

namespace Arena

/-- The part of the program that allocator records name. -/
def allocatorTarget : String := "kernel_alloc::locked"

/-- Hands out a block for a size with an alignment. -/
def allocAligned (size align : Nat) : Exec Arena (Option Nat) := do
  if unitSize < align then
    record .error allocatorTarget s!"heap: alignment {align} not supported"
    return none
  else malloc size

/-- Hands out a block. -/
def alloc (layout : Layout) : Exec Arena (Option Nat) := allocAligned layout.size layout.align

/-- Takes a block back; a pointer that the heap refuses is only logged. -/
def dealloc (pointer : Nat) : Exec Arena Unit := do
  if pointer = 0 then return ()
  else
    match ← free pointer with
    | .ok () => return ()
    | .error err => record .error allocatorTarget s!"heap: dealloc: {err.message}"

/-- Hands out a block with zero bytes. -/
def allocZeroed (layout : Layout) : Exec Arena (Option Nat) := do
  match ← alloc layout with
  | none => return none
  | some pointer =>
    Exec.update fun a => { a with memory := a.memory.fillBytes pointer layout.size 0 }
    return some pointer

/-- Moves the contents of a block to a block of another size and takes the first one back. -/
def realloc (pointer : Nat) (layout : Layout) (newSize : Nat) : Exec Arena (Option Nat) := do
  match ← allocAligned newSize layout.align with
  | none => return none
  | some fresh =>
    Exec.update fun a => { a with
      memory := a.memory.copyBytes pointer fresh (min layout.size newSize) }
    dealloc pointer
    return some fresh

end Arena

end PaeKernel
