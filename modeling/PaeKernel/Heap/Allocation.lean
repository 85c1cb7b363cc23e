import PaeKernel.Heap.Basic

/-!
# Taking and freeing blocks

`malloc` hands out the first free block that is large enough, in the order of the spaces and of the
addresses in each. `free` takes the address of a payload: it refuses one that belongs to no block,
and one whose block is free already.
-/

namespace PaeKernel.Arena

/-- The first space with a free block of at least so many units, and the index of that block. -/
def findFree (a : Arena) (units : Nat) : Option (Space × Nat) :=
  a.heap.spaces.findSome? fun s => (s.findFree a.memory units).map (s, ·)

/-- Moves units from the free counter to the used one. -/
def countTaken (granted : Nat) : Exec Arena Unit := do
  let free ← Exec.check (← Exec.view fun a => subWord a.heap.freeUnits granted)
  Exec.update fun a => { a with heap := { a.heap with freeUnits := free } }
  let used ← Exec.check (← Exec.view fun a => addWord a.heap.usedUnits granted)
  Exec.update fun a => { a with heap := { a.heap with usedUnits := used } }

/-- Moves units from the used counter to the free one. -/
def countFreed (freed : Nat) : Exec Arena Unit := do
  let free ← Exec.check (← Exec.view fun a => addWord a.heap.freeUnits freed)
  Exec.update fun a => { a with heap := { a.heap with freeUnits := free } }
  let used ← Exec.check (← Exec.view fun a => subWord a.heap.usedUnits freed)
  Exec.update fun a => { a with heap := { a.heap with usedUnits := used } }

/-- Hands out a payload of at least `size` bytes, or nothing if no free block is large enough. -/
def malloc (size : Nat) : Exec Arena (Option Nat) := do
  match unitsFor size with
  | none => return none
  | some units =>
    match ← Exec.view (·.findFree units) with
    | none =>
      let free ← Exec.view (·.heap.freeUnits)
      record .debug heapTarget s!"heap: malloc({size}) failed, {free} units free"
      return none
    | some (s, index) =>
      let granted ← onMemory (s.take index units)
      countTaken granted
      let free ← Exec.view (·.heap.freeUnits)
      let used ← Exec.view (·.heap.usedUnits)
      record .debug heapTarget
        s!"heap: malloc({size}) -> {granted} units; Free = {free} Used = {used}"
      return some (← onMemory (s.payload index))

/-- The space and the block whose payload starts at an address. -/
def blockForPayload (a : Arena) (address : Nat) : Option (Space × Block) := do
  let s ← a.heap.spaces.find? (·.contains address)
  let block ← s.blockForPayload a.memory address
  return (s, block)

/-- Takes back the payload at an address. -/
def free (address : Nat) : Exec Arena (Except HeapError Unit) := do
  match ← Exec.view (·.blockForPayload address) with
  | none => return .error (.foreignPointer address)
  | some (s, block) =>
    if block.used then
      let (freed, start) ← onMemory (s.release block.index)
      countFreed freed
      let merged ← onMemory (s.size start)
      let free ← Exec.view (·.heap.freeUnits)
      let used ← Exec.view (·.heap.usedUnits)
      record .debug heapTarget
        s!"heap: free({Numeral.hex address}) {freed} units, merged block {merged.units} units; Free = {free} Used = {used}"
      return .ok ()
    else return .error (.doubleFree address)

end PaeKernel.Arena
