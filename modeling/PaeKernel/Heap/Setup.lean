import PaeKernel.Heap.Basic

/-!
# Setting up a heap

`init` and `initFromRanges` set up a heap that has no spaces yet, from runs of words or from lists
of addresses that end at the first zero. Nothing is written before every check has passed.
-/

namespace PaeKernel.Arena

/-- Makes a space of a run of words that is neither too short nor too long. -/
def spaceOf (e : Extent) : Except HeapError Space :=
  match checkLength e.base e.len with
  | .error err => .error err
  | .ok () =>
    if long : minSpaceUnits ≤ e.len then .ok { e with long }
    else .error (.invalidRange e.base (e.base + e.len * unitSize))

/-- Makes spaces of runs of words while there is room for them. -/
def stage : (room : Nat) → List Extent → Except HeapError { l : List Space // l.length ≤ room }
  | _, [] => .ok ⟨[], Nat.zero_le _⟩
  | 0, e :: _ =>
    match spaceOf e with
    | .error err => .error err
    | .ok _ => .error (.tooManySpaces maxSpaces)
  | room + 1, e :: rest =>
    match spaceOf e with
    | .error err => .error err
    | .ok s =>
      match stage room rest with
      | .error err => .error err
      | .ok ⟨l, few⟩ => .ok ⟨s :: l, Nat.succ_le_succ few⟩

/-- Makes each space one free block, linked to the next space; gives back the units of all. -/
def formatFrom : (number : Nat) → List Space → Exec Arena Nat
  | _, [] => return 0
  | number, s :: rest => do
    let units ← onMemory (s.format ((rest.head?.map (·.base)).getD 0))
    record .debug heapTarget
      s!"heap: space {number} at {Numeral.hex s.base}..{Numeral.hex s.endAddr}, {units} units"
    return units + (← formatFrom (number + 1) rest)

/-- Sets up a heap from runs of words. -/
def init (extents : List Extent) : Exec Arena (Except HeapError Unit) := do
  if ← Exec.view (·.heap.initialized) then return .error .alreadyInitialized
  else
    match stage maxSpaces extents with
    | .error err => return .error err
    | .ok ⟨[], _⟩ => return .error .noSpaces
    | .ok ⟨spaces, few⟩ =>
      let units ← formatFrom 0 spaces
      Exec.update fun a => { a with
        heap := { spaces, few
                  freeUnits := a.heap.freeUnits + units
                  usedUnits := a.heap.usedUnits
                  capacityUnits := a.heap.capacityUnits + units } }
      let bytes ← Exec.view (·.heap.freeBytes)
      record .info heapTarget s!"heap: {spaces.length} spaces, {bytes} bytes available"
      return .ok ()

/-- The addresses before the first zero. -/
def beforeZero (list : List UInt64) : List UInt64 := list.takeWhile (· != 0)

/-- Whether two ranges of addresses share one. -/
def overlap (a b : UInt64 × UInt64) : Bool := a.1 < b.2 && b.1 < a.2

/-- Makes runs of words of ranges that are aligned, not empty and apart from all earlier ones. -/
def extentsOfRanges : (earlier ranges : List (UInt64 × UInt64)) → Except HeapError (List Extent)
  | _, [] => .ok []
  | earlier, (start, stop) :: rest =>
    if h : start.toNat < stop.toNat ∧ start.toNat % unitSize = 0 ∧ stop.toNat % unitSize = 0 then
      if earlier.any (overlap (start, stop)) then
        .error (.invalidRange start.toNat stop.toNat)
      else
        let extent : Extent := {
          base := start.toNat
          len := (stop.toNat - start.toNat) / unitSize
          aligned := h.2.1
          bounded := by
            have := stop.toNat_lt
            simp only [unitSize, wordLimit] at *; omega }
        (extentsOfRanges (earlier ++ [(start, stop)]) rest).map (extent :: ·)
    else .error (.invalidRange start.toNat stop.toNat)

/-- The runs of words between starts and stops, each list cut at its first zero. -/
def extentsOfLists (starts stops : List UInt64) : Except HeapError (List Extent) :=
  let starts := beforeZero starts
  let stops := beforeZero stops
  let common := min starts.length stops.length
  if starts.length ≠ stops.length then
    .error (.invalidRange (starts.getD common 0).toNat (stops.getD common 0).toNat)
  else if maxSpaces < starts.length then .error (.tooManySpaces maxSpaces)
  else extentsOfRanges [] (starts.zip stops)

/-- Sets up a heap from two lists of addresses. -/
def initFromRanges (starts stops : List UInt64) : Exec Arena (Except HeapError Unit) := do
  if ← Exec.view (·.heap.initialized) then return .error .alreadyInitialized
  else
    match extentsOfLists starts stops with
    | .error err => return .error err
    | .ok extents => init extents

end PaeKernel.Arena
