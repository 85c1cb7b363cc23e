import PaeKernel.Heap.Basic

/-!
# Audit of a heap

`Arena.audit` compares the words of every space and the three counters with what a sound heap looks
like, and reports the first difference. It reads memory of any contents and changes nothing.
-/

namespace PaeKernel

/-- The units counted so far. -/
structure Tally where
  free : Nat := 0
  used : Nat := 0
  capacity : Nat := 0
  deriving Repr, DecidableEq

/-- The answer of a check that may also panic. -/
abbrev Verdict (α : Type) : Type := ExceptT HeapError (Except Panic) α

namespace Verdict

/-- Reports a difference. -/
def corrupt {α : Type} (space unit : Nat) (reason : String) : Verdict α :=
  throw (.corrupt space unit reason)

/-- Goes on with a value or panics. -/
def check {α : Type} (r : Except Panic α) : Verdict α := ExceptT.mk (r.map .ok)

end Verdict

namespace Tally

/-- Counts the units of a block. -/
def addBlock (t : Tally) (b : Block) : Except Panic Tally :=
  if b.used then (addWord t.used b.units).map fun used => { t with used }
  else (addWord t.free b.units).map fun free => { t with free }

/-- Counts the units that a space gives to blocks. -/
def addSpace (t : Tally) (s : Space) : Except Panic Tally :=
  (addWord t.capacity s.blockUnits).map fun capacity => { t with capacity }

end Tally

namespace Space

/-- Whether a block names the block before it, or nothing if it is the first. -/
def namesPrev (s : Space) (m : Memory) (before : Option Block) (b : Block) : Bool :=
  match before with
  | none => s.word m b.index == 0
  | some p => b.prev == some p.index

/-- Checks blocks one after another and counts them; gives back where the last one stops. -/
def auditBlocks (s : Space) (m : Memory) (number : Nat) :
    (expected : Nat) → (before : Option Block) → List Block → Tally → Verdict (Nat × Tally)
  | expected, _, [], t => return (expected, t)
  | expected, before, b :: rest, t => do
    if b.index ≠ expected then Verdict.corrupt number b.index "partition"
    else if s.namesPrev m before b = false then Verdict.corrupt number b.index "prev link"
    else if before.any (fun p => !p.used) = true ∧ b.used = false then
      Verdict.corrupt number b.index "adjacent free blocks"
    else
      let t ← Verdict.check (t.addBlock b)
      auditBlocks s m number b.stop (some b) rest t

/-- Checks one space; `nextBase` is the address of the space after it, zero for the last. -/
def audit (s : Space) (m : Memory) (number nextBase : Nat) (t : Tally) : Verdict Tally := do
  if s.word m 1 ≠ s.len then Verdict.corrupt number 1 "space size word"
  else if s.word m 0 ≠ nextBase then Verdict.corrupt number 0 "next-space link"
  else if s.word m s.sentinel ≠ 0 ∨ (s.sizeAt m s.sentinel).isSentinel = false then
    Verdict.corrupt number s.sentinel "sentinel"
  else
    let (reached, t) ← s.auditBlocks m number firstBlock none (s.blocks m) t
    if reached ≠ s.sentinel then Verdict.corrupt number reached "partition"
    else Verdict.check (t.addSpace s)

end Space

namespace Arena

/-- Checks spaces one after another and counts their units. -/
def auditSpaces (m : Memory) : (number : Nat) → List Space → Tally → Verdict Tally
  | _, [], t => return t
  | number, s :: rest, t => do
    let t ← s.audit m number ((rest.head?.map (·.base)).getD 0) t
    auditSpaces m (number + 1) rest t

/-- Checks all spaces and the counters. -/
def auditVerdict (a : Arena) : Verdict Unit := do
  let t ← auditSpaces a.memory 0 a.heap.spaces {}
  if (t.free, t.used, t.capacity)
      ≠ (a.heap.freeUnits, a.heap.usedUnits, a.heap.capacityUnits) then
    Verdict.corrupt a.heap.spaces.length 0 "counters"
  else
    let total ← Verdict.check (addWord t.free t.used)
    if total ≠ t.capacity then Verdict.check (.error (.unbalancedTotals total t.capacity))
    else return ()

/-- The first difference between a heap and a sound one. -/
def audit (a : Arena) : Except Panic (Except HeapError Unit) := a.auditVerdict.run

end Arena

end PaeKernel
