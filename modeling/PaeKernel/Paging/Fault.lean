import PaeKernel.Address.Virtual
import PaeKernel.Register.Field

/-!
# Page faults

A page fault is an address and an error code. `FaultCode.explain` names the most telling cause and
`FaultCode.conditions` lists every condition the code holds.
-/

namespace PaeKernel

/-- The interrupt vector of page faults. -/
def pageFaultVector : Nat := 14

/-- The error code that comes with a page fault. -/
@[ext] structure FaultCode where
  bits : Nat
  deriving Repr, DecidableEq

namespace FaultCode

def presentField : Field := .bit "present" 0
def writeField : Field := .bit "write" 1
def userField : Field := .bit "user" 2
def reservedField : Field := .bit "reserved_bit" 3
def fetchField : Field := .bit "instruction_fetch" 4
def keyField : Field := .bit "protection_key" 5
def shadowField : Field := .bit "shadow_stack" 6

/-- The flags of a fault code. -/
def layout : RegisterLayout where
  width := 32
  fields := [presentField, writeField, userField, reservedField, fetchField, keyField, shadowField]

/-- Whether the page was there, so that the access broke a rule. -/
def present (c : FaultCode) : Bool := presentField.isSet c.bits

/-- Whether the access was a write. -/
def write (c : FaultCode) : Bool := writeField.isSet c.bits

/-- Whether the access came from user mode. -/
def user (c : FaultCode) : Bool := userField.isSet c.bits

/-- Whether a table had a reserved bit set. -/
def reserved (c : FaultCode) : Bool := reservedField.isSet c.bits

/-- Whether the access was an instruction fetch. -/
def fetch (c : FaultCode) : Bool := fetchField.isSet c.bits

/-- The cause in a sentence. -/
def explain (c : FaultCode) : String :=
  if !c.present then "Non-present page (not mapped yet)"
  else if c.reserved then "Reserved bit set in a paging structure"
  else if c.fetch then
    if c.user then "User-mode instruction fetch on protected page"
    else "Kernel instruction fetch on protected page"
  else if c.write then "Write access to protected page"
  else "Read access to protected page"

/-- The conditions that hold, in the order of their bits. -/
def conditionWords (c : FaultCode) : List String :=
  [(!c.present, "not-present"), (c.present, "protection"), (c.write, "write"), (c.user, "user"),
    (c.reserved, "reserved"), (c.fetch, "fetch")].filterMap
    fun (holds, word) => if holds then some word else none

/-- The conditions that hold, in a line. -/
def conditions (c : FaultCode) : String := " ".intercalate c.conditionWords

end FaultCode

/-- An access that could not be translated. -/
@[ext] structure PageFault where
  address : VirtualAddress
  code : FaultCode
  deriving DecidableEq

namespace PageFault

/-- The fault the processor reports with these two words. -/
def ofWords (address code : Nat) : PageFault := ⟨.ofNat address, ⟨code % registerLimit⟩⟩

/-- How a fault is written in messages. -/
def display (f : PageFault) : String := s!"Page Fault @ {f.address.display} {f.code.conditions}"

end PageFault

/-- Why a fault could not be resolved. -/
inductive FaultError where
  | protectionViolation (address : VirtualAddress) (code : FaultCode)
  | outOfTables (address : VirtualAddress)
  | noBackingFrame (page : VirtualAddress)
  deriving DecidableEq

/-- The text of a fault error. -/
def FaultError.message : FaultError → String
  | .protectionViolation address code =>
    s!"protection violation at {address.display} ({code.conditions}): {code.explain}"
  | .outOfTables address => s!"no page-table frame left to map {address.display}"
  | .noBackingFrame page => s!"no physical frame backs page {page.display}"

end PaeKernel
