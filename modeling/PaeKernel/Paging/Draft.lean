import PaeKernel.Boot.Image
import PaeKernel.Log
import PaeKernel.Paging.Backing
import PaeKernel.Paging.Fault
import PaeKernel.Paging.Frames
import PaeKernel.Paging.Table

/-!
# Drafting table changes

A pager builds the first tables, in which low memory is mapped to itself, and then maps one page
per fault. What it does is first drafted: a draft reads memory as it is before the fault and lists
the stores to make, in order. New tables are emptied and filled before the one store that links
them.
-/

namespace PaeKernel

/-- Where the first tables lie and how many pages are mapped to themselves from the start. -/
structure TableLayout where
  root : PhysicalAddress
  directory : PhysicalAddress
  table : PhysicalAddress
  spare1 : PhysicalAddress
  spare2 : PhysicalAddress
  identityPages : Nat
  deriving DecidableEq

namespace TableLayout

/-- The layout the kernel starts with. -/
def boot : TableLayout where
  root := .ofNat rootPage
  directory := .ofNat directoryPage
  table := .ofNat tablePage
  spare1 := .ofNat sparePage1
  spare2 := .ofNat sparePage2
  identityPages := PaeKernel.identityPages

/-- The frames kept for the first new tables. -/
def spareFrames (l : TableLayout) : List PhysicalAddress := [l.spare1, l.spare2]

end TableLayout

/-- How a fault was resolved. -/
inductive Resolution where
  | mapped (page : VirtualAddress) (frame : PhysicalAddress) (rootChanged : Bool)
  | alreadyMapped (page : VirtualAddress)
  deriving DecidableEq

namespace Resolution

/-- Whether the processor has to read the root table again. -/
def requiresReload : Resolution → Bool
  | .mapped _ _ rootChanged => rootChanged
  | .alreadyMapped _ => false

/-- The page the fault was about. -/
def page : Resolution → VirtualAddress
  | .mapped page _ _ => page
  | .alreadyMapped page => page

end Resolution

/-- What a pager knows besides memory. -/
structure Pager (β : Type) where
  layout : TableLayout
  window : Nat := 0
  frames : FrameSource
  spare : Option PhysicalAddress := none
  installed : Nat := 0
  backing : β
  log : List Record := []

/-- A pager and the stores it is about to make. -/
structure Draft (β : Type) where
  pager : Pager β
  stores : List Memory.Store := []

namespace Draft

variable {β : Type}

/-- The part of the program that paging records name. -/
def target : String := "kernel_vmem::manager"

/-- Adds a record to the log. -/
def record (level : Level) (message : String) : Exec (Draft β) Unit :=
  Exec.update fun d => { d with pager := { d.pager with
    log := d.pager.log ++ [⟨level, target, message⟩] } }

/-- Adds stores to the draft. -/
def emit (stores : List Memory.Store) : Exec (Draft β) Unit :=
  Exec.update fun d => { d with stores := d.stores ++ stores }

/-- Where a frame appears in memory. -/
def place (frame : PhysicalAddress) : Exec (Draft β) Nat :=
  Exec.view fun d => d.pager.window + frame.toNat

/-- The next frame from the source. -/
def nextFrame : Exec (Draft β) (Option PhysicalAddress) :=
  Exec.zoom (·.pager.frames) (fun d frames => { d with pager := { d.pager with frames } })
    FrameSource.alloc

/-- The frame kept from a draft that failed, or else the next one from the source. -/
def takeFrame : Exec (Draft β) (Option PhysicalAddress) := do
  match ← Exec.view (·.pager.spare) with
  | some frame =>
    Exec.update fun d => { d with pager := { d.pager with spare := none } }
    return some frame
  | none => nextFrame

/-- An emptied table for mapping `page`. -/
def newTable (page : VirtualAddress) : Exec (Draft β) (Option PhysicalAddress) := do
  match ← takeFrame with
  | none => return none
  | some frame =>
    Exec.require (frame.isPageAligned = true) .unalignedTable
    emit (Table.zeroStores (← place frame))
    record .debug s!"paging: new table at {frame.display} for {page.display}"
    return some frame

/-- Keeps a frame for later. -/
def keep (frame : PhysicalAddress) : Exec (Draft β) Unit :=
  Exec.update fun d => { d with pager := { d.pager with spare := some frame } }

/-- Counts a page that is now mapped. -/
def mapped (page : VirtualAddress) (frame : PhysicalAddress) (rootChanged : Bool) :
    Exec (Draft β) (Except FaultError Resolution) := do
  Exec.update fun d => { d with pager := { d.pager with installed := d.pager.installed + 1 } }
  record .debug s!"paging: mapped {page.display} -> {frame.display}"
  return .ok (.mapped page frame rootChanged)

/-- Links a table that holds just `leaf` into a directory. -/
def linkTable (directory table : PhysicalAddress) (page : VirtualAddress) (leaf : PageEntry) :
    Exec (Draft β) Unit := do
  emit [Table.entryStore (← place table) page.ptIndex leaf]
  let entry ← Exec.check (PageEntry.kernelWritable table)
  emit [Table.entryStore (← place directory) page.pdIndex entry]

/-- Maps a page whose directory is missing. -/
def installDirectory (page : VirtualAddress) (frame : PhysicalAddress) (leaf : PageEntry) :
    Exec (Draft β) (Except FaultError Resolution) := do
  match ← newTable page with
  | none => return .error (.outOfTables page)
  | some directory =>
    match ← newTable page with
    | none =>
      keep directory
      return .error (.outOfTables page)
    | some table =>
      linkTable directory table page leaf
      let entry ← Exec.check (RootEntry.ofDirectory directory)
      let root ← place (← Exec.view (·.pager.layout.root))
      emit [Table.rootStore root page.pdptIndex entry]
      mapped page frame true

/-- Maps a page whose table is missing. -/
def installTable (directory : PhysicalAddress) (page : VirtualAddress) (frame : PhysicalAddress)
    (leaf : PageEntry) : Exec (Draft β) (Except FaultError Resolution) := do
  match ← newTable page with
  | none => return .error (.outOfTables page)
  | some table =>
    linkTable directory table page leaf
    mapped page frame false

/-- Maps a page whose table is there, unless the page is mapped already. -/
def installLeaf (m : Memory) (table : PhysicalAddress) (page : VirtualAddress)
    (frame : PhysicalAddress) (leaf : PageEntry) :
    Exec (Draft β) (Except FaultError Resolution) := do
  let place ← place table
  if (Table.entry m place page.ptIndex).present then
    record .debug s!"paging: {page.display} already mapped"
    return .ok (.alreadyMapped page)
  else
    emit [Table.entryStore place page.ptIndex leaf]
    mapped page frame false

/-- Maps a page to a frame. -/
def install (m : Memory) (page : VirtualAddress) (frame : PhysicalAddress) :
    Exec (Draft β) (Except FaultError Resolution) := do
  let leaf ← Exec.check (PageEntry.kernelWritable frame)
  let root ← place (← Exec.view (·.pager.layout.root))
  let top := Table.rootEntry m root page.pdptIndex
  if top.present then
    let middle := Table.entry m (← place top.directory) page.pdIndex
    if middle.present then installLeaf m middle.frame page frame leaf
    else installTable top.directory page frame leaf
  else installDirectory page frame leaf

/-- Asks the backing for a frame. -/
def backingFrame [Backing β] (page : VirtualAddress) : Exec (Draft β) (Option PhysicalAddress) :=
  Exec.zoom (·.pager.backing) (fun d backing => { d with pager := { d.pager with backing } })
    (Backing.frameFor page)

/-- Resolves a fault in memory `m`. -/
def resolve [Backing β] (m : Memory) (fault : PageFault) :
    Exec (Draft β) (Except FaultError Resolution) := do
  record .warn fault.display
  if fault.code.present then return .error (.protectionViolation fault.address fault.code)
  else
    match ← backingFrame fault.address.pageBase with
    | none => return .error (.noBackingFrame fault.address.pageBase)
    | some frame =>
      Exec.require (frame.isPageAligned = true) .unalignedFrame
      install m fault.address.pageBase frame

/-- The entry that maps page `i` to itself. -/
def identityEntry (i : Nat) : PageEntry := ⟨i * 4096 + 3⟩

/-- Builds the first tables. -/
def buildTables : Exec (Draft β) Unit := do
  let l ← Exec.view (·.pager.layout)
  let count := min l.identityPages tableEntries
  let root ← place l.root
  let directory ← place l.directory
  let table ← place l.table
  emit (Table.zeroStores root)
  emit (Table.zeroStores directory)
  emit (Table.zeroStores table)
  emit (Table.zeroStores (← place l.spare1))
  emit (Table.zeroStores (← place l.spare2))
  emit ((List.range count).map fun i =>
    ⟨Table.entryAddress table i, (identityEntry i).bits⟩)
  let toTable ← Exec.check (PageEntry.kernelWritable l.table)
  emit [Table.entryStore directory 0 toTable]
  let toDirectory ← Exec.check (RootEntry.ofDirectory l.directory)
  emit [Table.rootStore root 0 toDirectory]
  record .debug s!"paging: identity mapped {count} pages, PDPT at {l.root.display}"

theorem kernelWritable_identity {i : Nat} (h : i < 512) :
    PageEntry.kernelWritable (.ofNat (i * 4096)) = .ok (identityEntry i) := by
  have hm : (PhysicalAddress.ofNat (i * 4096)).toNat = i * 4096 :=
    Nat.mod_eq_of_lt (by simp only [wordLimit]; omega)
  rw [PageEntry.kernelWritable_of_lt (by simp only [hm, frameLimit]; omega), hm, identityEntry,
    Nat.mul_div_cancel _ (by decide)]

end Draft

end PaeKernel
