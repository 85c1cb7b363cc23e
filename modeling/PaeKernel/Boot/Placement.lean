import PaeKernel.Boot.Image
import PaeKernel.Boot.Info
import PaeKernel.Heap.Setup
import PaeKernel.Paging.Draft

/-!
# Placing the heap

The free memory between the kernel image and the identity limit goes to the heap, apart from whole
pages at its top that are kept for tables made by page faults.
-/

namespace PaeKernel

/-- Where the heap and the frames for tables lie. -/
@[ext] structure BootMemory where
  heap : AddressRange
  tables : AddressRange
  deriving Repr, DecidableEq

/-- The heap and the table frames behind a kernel image that ends at `kernelEnd`. -/
def MemoryMap.place (map : MemoryMap) (kernelEnd : Nat) :
    Except Panic (Except MemoryMapError BootMemory) := do
  match ← map.heapRegion kernelEnd identityLimit with
  | .error err => return .error err
  | .ok region =>
    return .ok ⟨(splitTableFrames region tableFrames).1, (splitTableFrames region tableFrames).2⟩

/-- Why the kernel's heap could not be set up. -/
inductive HeapSetupError where
  | unaddressable (start stop : Nat)
  | heap (error : HeapError)
  deriving Repr, DecidableEq

/-- The text of a setup error. -/
def HeapSetupError.message : HeapSetupError → String
  | .unaddressable start stop =>
    s!"heap range {Numeral.hex start}..{Numeral.hex stop} is not addressable"
  | .heap error => s!"heap: {error.message}"

/-- The pager the kernel starts with: its first tables lie in fixed pages, further ones in the table
frames, and pages get the frames of the same number. -/
def BootMemory.pager (boot : BootMemory) : Except Panic (Pager IdentityBacking) := do
  let frames ← FrameSource.bump TableLayout.boot.spareFrames boot.tables.start boot.tables.stop
  return { layout := .boot, frames, backing := {} }

namespace Arena

/-- The part of the program that boot records name. -/
def bootTarget : String := "kernel::memory"

/-- Logs the regions of a memory map. -/
def logMemoryMap (map : MemoryMap) : Exec Arena Unit := do
  record .info bootTarget "Memory map:"
  map.regions.forM fun r => record .info bootTarget s!"  {r.display}"
  record .info bootTarget s!"Usable memory: {map.usableBytes / 1024} KiB"

/-- Places the heap and the table frames and logs where the frames lie. -/
def bootMemory (map : MemoryMap) (kernelEnd : Nat) :
    Exec Arena (Except MemoryMapError BootMemory) := do
  match ← Exec.check (map.place kernelEnd) with
  | .error err => return .error err
  | .ok boot =>
    record .info bootTarget
      s!"Page-table frames at {Numeral.hex8 boot.tables.start}..{Numeral.hex8 boot.tables.stop}"
    return .ok boot

/-- Sets up the kernel's heap in one range. -/
def heapInit (range : AddressRange) : Exec Arena (Except HeapSetupError Unit) := do
  if range.start < wordLimit ∧ range.stop < wordLimit then
    match ← initFromRanges [.ofNat range.start, 0] [.ofNat range.stop, 0] with
    | .error err => return .error (.heap err)
    | .ok () =>
      let bytes ← Exec.view (·.heap.freeBytes)
      record .info bootTarget
        s!"Heap at {Numeral.hex8 range.start}..{Numeral.hex8 range.stop}: {bytes} bytes free"
      return .ok ()
  else return .error (.unaddressable range.start range.stop)

/-- Sets up the kernel's heap; a failure is only logged. -/
def tryHeapInit (range : AddressRange) : Exec Arena Unit := do
  match ← heapInit range with
  | .ok () => return ()
  | .error err => record .error bootTarget s!"No kernel heap: {err.message}"

end Arena

end PaeKernel
