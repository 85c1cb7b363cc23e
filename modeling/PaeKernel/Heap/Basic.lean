import PaeKernel.Heap.Space
import PaeKernel.Log

/-!
# The heap

A heap is a list of at most eight spaces and three counters of units. An `Arena` is a heap together
with the memory that its spaces lie in and the log; every operation of the heap is a computation
over an arena.
-/

namespace PaeKernel

/-- The most spaces a heap has. -/
def maxSpaces : Nat := 8

/-- Spaces and the units in them that are free, in use, and available to blocks. -/
structure Heap where
  spaces : List Space
  freeUnits : Nat
  usedUnits : Nat
  capacityUnits : Nat
  few : spaces.length ≤ maxSpaces

namespace Heap

/-- The heap without spaces. -/
def empty : Heap := ⟨[], 0, 0, 0, by decide⟩

instance : Inhabited Heap := ⟨empty⟩

/-- Whether the heap has been set up. -/
def initialized (h : Heap) : Bool := !h.spaces.isEmpty

/-- The blocks of one space. -/
def blocksOf (h : Heap) (m : Memory) (space : Nat) : List Block :=
  match h.spaces[space]? with
  | some s => s.blocks m
  | none => []

/-- The address of one space. -/
def baseOf (h : Heap) (space : Nat) : Option Nat := h.spaces[space]?.map (·.base)

/-- The bytes in free blocks. -/
def freeBytes (h : Heap) : Nat := h.freeUnits * unitSize

/-- The bytes in blocks in use. -/
def usedBytes (h : Heap) : Nat := h.usedUnits * unitSize

end Heap

/-- A heap with the memory it manages and the records it has logged. -/
structure Arena where
  heap : Heap
  memory : Memory
  log : List Record := []

namespace Arena

/-- The part of the program that heap records name. -/
def heapTarget : String := "kernel_alloc::heap"

/-- Adds a record to the log. -/
def record (level : Level) (target message : String) : Exec Arena Unit :=
  Exec.update fun a => { a with log := a.log ++ [⟨level, target, message⟩] }

/-- Runs a computation on the memory. -/
def onMemory {α : Type} (x : Exec Memory α) : Exec Arena α :=
  Exec.zoom Arena.memory (fun a m => { a with memory := m }) x

end Arena

end PaeKernel
