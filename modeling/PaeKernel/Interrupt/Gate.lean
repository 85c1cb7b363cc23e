import PaeKernel.Register.Field

/-!
# Interrupt gates

A gate tells the processor where the handler of a vector starts. The table has 256 gates; a number
beyond them panics.
-/

namespace PaeKernel

/-- The gates of a table. -/
def gateCount : Nat := 256

namespace GateAttr

def kindField : Field := .number "typ" 0 4
def systemField : Field := .bit "s" 4
def privilegeField : Field := .number "dpl" 5 2
def presentField : Field := .bit "present" 7

/-- The fields of a gate's attribute byte. -/
def layout : RegisterLayout where
  width := 8
  fields := [kindField, systemField, privilegeField, presentField]

/-- The kind number of an interrupt gate. -/
def interruptKind : Nat := 0xE

/-- The attributes of an interrupt gate that is not present. -/
def interrupt : Nat := interruptKind

end GateAttr

/-- One gate. -/
@[ext] structure Gate where
  offsetLow : UInt16
  selector : UInt16
  zero : UInt8
  attr : Nat
  offsetHigh : UInt16
  deriving Repr, DecidableEq

namespace Gate

/-- The gate that leads nowhere. -/
def missing : Gate := ⟨0, 0, 0, 0, 0⟩

instance : Inhabited Gate := ⟨missing⟩

/-- The code segment that handlers run in. -/
def codeSelector : UInt16 := 8

/-- A gate to a handler, not yet present. -/
def toHandler (offset : UInt32) : Gate where
  offsetLow := offset.toUInt16
  selector := codeSelector
  zero := 0
  attr := GateAttr.interrupt
  offsetHigh := (offset >>> 16).toUInt16

/-- The gate with its present flag set or cleared. -/
def withPresent (g : Gate) (present : Bool) : Gate :=
  { g with attr := GateAttr.presentField.putFlag present g.attr }

/-- The gate as an interrupt gate. -/
def asInterrupt (g : Gate) : Gate :=
  let kind := GateAttr.kindField.clear g.attr + GateAttr.interruptKind
  { g with attr := GateAttr.systemField.putFlag false kind }

/-- Where the handler starts. -/
def offset (g : Gate) : UInt32 := g.offsetHigh.toUInt32 <<< 16 ||| g.offsetLow.toUInt32

/-- Whether the processor may use the gate. -/
def present (g : Gate) : Bool := GateAttr.presentField.isSet g.attr

end Gate

/-- A table of gates. -/
abbrev GateTable : Type := Vector Gate 256

namespace GateTable

/-- The table without handlers. -/
def empty : GateTable := Vector.replicate 256 Gate.missing

/-- The gate of a vector. -/
def get (t : GateTable) (i : Nat) : Except Panic Gate :=
  if h : i < 256 then .ok t[i] else .error (.indexOutOfBounds gateCount i)

/-- The table with another gate for a vector. -/
def set (t : GateTable) (i : Nat) (g : Gate) : Except Panic GateTable :=
  if h : i < 256 then .ok (Vector.set t i g h) else .error (.indexOutOfBounds gateCount i)

/-- The vectors whose gates are present. -/
def presentVectors (t : GateTable) : List Nat :=
  (List.finRange 256).filterMap fun i => if t[i].present then some i.val else none

end GateTable

end PaeKernel
