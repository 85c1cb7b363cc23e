import PaeKernel.Numeral

/-!
# Trap frames

What the processor and the entry code leave on the stack when an interrupt arrives.
-/

namespace PaeKernel

/-- The registers at an interrupt. -/
@[ext] structure TrapFrame where
  edi : UInt32 := 0
  esi : UInt32 := 0
  ebp : UInt32 := 0
  esp : UInt32 := 0
  ebx : UInt32 := 0
  edx : UInt32 := 0
  ecx : UInt32 := 0
  eax : UInt32 := 0
  vector : UInt32 := 0
  errorCode : UInt32 := 0
  eip : UInt32 := 0
  cs : UInt32 := 0
  eflags : UInt32 := 0
  deriving Repr, DecidableEq

namespace TrapFrame

/-- The frame of zeros. -/
def zero : TrapFrame := {}

instance : Inhabited TrapFrame := ⟨zero⟩

/-- The registers in the order they lie in memory. -/
def toList (f : TrapFrame) : List UInt32 :=
  [f.edi, f.esi, f.ebp, f.esp, f.ebx, f.edx, f.ecx, f.eax, f.vector, f.errorCode, f.eip, f.cs,
    f.eflags]

/-- How a frame is written in messages. -/
def display (f : TrapFrame) : String :=
  let error := Numeral.hex f.errorCode.toNat
  let place := s!"{Numeral.hex4 f.cs.toNat}:{Numeral.hex8 f.eip.toNat}"
  s!"vector {f.vector} error {error} at {place} eflags {Numeral.hex8 f.eflags.toNat}"

end TrapFrame

/-- Why an interrupt was not handled or a handler not installed. -/
inductive InterruptError where
  | noStub (vector : UInt8)
  | unhandled (frame : TrapFrame)
  | busy (vector : UInt32)
  deriving Repr, DecidableEq

/-- The text of an interrupt error. -/
def InterruptError.message : InterruptError → String
  | .noStub vector => s!"vector {vector} has no entry stub"
  | .unhandled frame => s!"unhandled interrupt: {frame.display}"
  | .busy vector => s!"ISR table busy while dispatching vector {vector}"

end PaeKernel
