import PaeKernel.Paging.Pager

/-!
# Page maps

What the tables in memory amount to: a map from pages to frames. Faults extend it by the pages they
report as mapped.
-/

namespace PaeKernel

/-- The frame of each page that has one; pages are named by their first address. -/
def PageMap : Type := VirtualAddress → Option PhysicalAddress

namespace PageMap

/-- The first pages, each with the frame of the same number. -/
def identity (pages : Nat) : PageMap := fun page =>
  if page.toNat / 4096 < min pages tableEntries then some page.pageBase.identity else none

/-- The map in which a page has another frame. -/
def insert (map : PageMap) (page : VirtualAddress) (frame : PhysicalAddress) : PageMap := fun p =>
  if p = page then some frame else map p

/-- The physical address that a virtual address stands for. -/
def translate (map : PageMap) (a : VirtualAddress) : Option PhysicalAddress :=
  (map a.pageBase).map fun frame => .ofNat (frame.toNat + a.pageOffset)

/-- The map after the answer to a fault. -/
def after (map : PageMap) : Except FaultError Resolution → PageMap
  | .ok (.mapped page frame _) => map.insert page frame
  | .ok (.alreadyMapped _) => map
  | .error _ => map

/-- The map after the answers to faults. -/
def afterAll (map : PageMap) (answers : List (Except FaultError Resolution)) : PageMap :=
  answers.foldl after map

theorem translate_insert_of_ne {map : PageMap} {page : VirtualAddress} {a : VirtualAddress}
    (frame : PhysicalAddress) (h : a.pageBase ≠ page) :
    (map.insert page frame).translate a = map.translate a := by
  simp [translate, insert, h]

theorem translate_insert_same (map : PageMap) (a : VirtualAddress) (frame : PhysicalAddress) :
    (map.insert a.pageBase frame).translate a = some (.ofNat (frame.toNat + a.pageOffset)) := by
  simp [translate, insert]

end PageMap

namespace Paging

variable {β : Type}

/-- Resolves faults one after another. -/
def handleFaults [Backing β] :
    List PageFault → Exec (Paging β) (List (Except FaultError Resolution))
  | [] => return []
  | fault :: rest => do
    let answer ← handleFault fault
    return answer :: (← handleFaults rest)

end Paging

end PaeKernel
