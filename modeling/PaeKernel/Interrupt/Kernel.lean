import PaeKernel.Exec
import PaeKernel.Interrupt.Gate
import PaeKernel.Interrupt.Registry
import PaeKernel.Log

/-!
# The kernel's interrupts

A handler gets interrupts once its vector has entry code, it is in the registry, and a gate leads to
the entry code. The table of gates may only be changed after it was loaded.
-/

namespace PaeKernel

/-- The registry, the gates and whether the processor uses them. -/
structure KernelInterrupts (η : Type) where
  registry : Registry η := .empty
  gates : GateTable := .empty
  loaded : Bool := false
  log : List Record := []

namespace KernelInterrupts

variable {η : Type}

/-- The part of the program that interrupt records name. -/
def target : String := "kernel::interrupts"

/-- Adds a record to the log. -/
def record (level : Level) (message : String) : Exec (KernelInterrupts η) Unit :=
  Exec.update fun k => { k with log := k.log ++ [⟨level, target, message⟩] }

/-- Changes the gates of a loaded table. -/
def updateGates (f : GateTable → Except Panic GateTable) : Exec (KernelInterrupts η) Unit := do
  Exec.require ((← Exec.view KernelInterrupts.loaded) = true) .noInterruptTable
  let gates ← Exec.check (f (← Exec.view KernelInterrupts.gates))
  Exec.update fun k => { k with gates }

/-- The entry code of each vector away from the bare machine: none. -/
def hostedStubs : UInt8 → Option UInt32 := fun _ => none

/-- Installs a handler for a vector that has entry code. -/
def install (stubs : UInt8 → Option UInt32) (vector : UInt8) (h : η) :
    Exec (KernelInterrupts η) (Option (Except InterruptError Unit)) := do
  match stubs vector with
  | none => return some (.error (.noStub vector))
  | some stub =>
    match (← Exec.view KernelInterrupts.registry).register vector h with
    | none => return none
    | some (replaced, registry) =>
      Exec.update fun k => { k with registry }
      if replaced.isSome then record .debug s!"ISR for vector {vector} replaced"
      updateGates fun gates =>
        gates.set vector.toNat ((Gate.toHandler stub).withPresent true).asInterrupt
      record .debug
        s!"ISR for vector {vector} installed, stub at {Numeral.hex8 stub.toNat}"
      return some (.ok ())

/-- Dispatches a frame; an error is a panic. -/
def dispatch (routine : η → Routine η) (depth : Nat) (frame : TrapFrame) :
    Exec (KernelInterrupts η) (Option TrapFrame) := do
  let registry ← Exec.view KernelInterrupts.registry
  match IsrState.dispatch routine depth { registry, frame } with
  | (.error _, _) => return none
  | (.ok answer, s) =>
    Exec.update fun k => { k with registry := s.registry }
    match answer with
    | .ok () => return some s.frame
    | .error err => Exec.panic (.gaveUp err.message)

end KernelInterrupts

end PaeKernel
