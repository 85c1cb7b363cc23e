import PaeKernel.Paging.Draft
import PaeKernel.Paging.Walk

/-!
# Resolving page faults

A `Paging` is a pager and the memory its tables lie in. Its operations carry out what a draft
lists, all of it also when the draft ends in a panic: `handleFault_memory` says that memory after a
fault is memory before it with the drafted stores made.
-/

namespace PaeKernel

/-- A pager and the memory its tables lie in. -/
structure Paging (β : Type) where
  pager : Pager β
  memory : Memory

namespace Paging

variable {β : Type}

/-- Carries out what a draft lists, also when the draft ends in a panic. -/
def carryOut {α : Type} (draft : Memory → Exec (Draft β) α) : Exec (Paging β) α := fun s =>
  let (r, d) := draft s.memory { pager := s.pager }
  (r, { pager := d.pager, memory := s.memory.apply d.stores })

/-- Builds the first tables. -/
def initTables : Exec (Paging β) Unit := carryOut fun _ => Draft.buildTables

/-- Maps the page of a fault. -/
def handleFault [Backing β] (fault : PageFault) : Exec (Paging β) (Except FaultError Resolution) :=
  carryOut fun m => Draft.resolve m fault

/-- Maps the page of a fault; an error is a panic. -/
def dispatch [Backing β] (fault : PageFault) : Exec (Paging β) Resolution := do
  match ← handleFault fault with
  | .ok resolution => return resolution
  | .error err => Exec.panic (.gaveUp s!"Page Fault: {err.message}")

/-- The stores that a fault makes, in order. -/
def faultStores [Backing β] (s : Paging β) (fault : PageFault) : List Memory.Store :=
  (Draft.resolve s.memory fault { pager := s.pager }).2.stores

/-- Physical memory as the pager sees it. -/
def view (s : Paging β) : PhysicalView := ⟨s.pager.window, s.memory⟩

/-- The physical address that a virtual address stands for. -/
def translate (s : Paging β) (a : VirtualAddress) : Option PhysicalAddress :=
  s.view.translate s.pager.layout.root a

theorem handleFault_memory [Backing β] (s : Paging β) (fault : PageFault) :
    (handleFault fault s).2.memory = s.memory.apply (s.faultStores fault) := rfl

end Paging

end PaeKernel
