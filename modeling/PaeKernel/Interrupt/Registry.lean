import PaeKernel.Interrupt.TrapFrame
import PaeKernel.Lock.Spin

/-!
# The registry of handlers

A registry keeps one handler for each vector behind a lock. Dispatching a frame takes the lock only
to look the handler up and runs the handler without it, so a handler may itself register handlers
and dispatch frames on the same registry. What a handler does is given as a `Routine`; a program
that uses the registry from outside is a routine too. A run keeps a trace of the calls it makes and
the handlers it starts, each with the registry and the frame of that moment.
-/

namespace PaeKernel

/-- Handlers by vector, behind a lock. -/
abbrev Registry (η : Type) : Type := SpinLock (Vector (Option η) 256)

namespace Registry

variable {η : Type}

/-- The registry without handlers. -/
def empty : Registry η := { value := Vector.replicate 256 none }

/-- The handler of a vector. -/
def handler? (r : Registry η) (vector : UInt32) : Option η := (r.value[vector.toNat]?).join

/-- Makes a handler the one of a vector and gives back the one before it; waits for the lock. -/
def register (r : Registry η) (vector : UInt8) (h : η) : Option (Option η × Registry η) :=
  r.lock?.map fun held =>
    (held.value.get ⟨vector.toNat, vector.toNat_lt⟩,
      (held.modify fun t => t.set vector.toNat (some h) vector.toNat_lt).release)

/-- Looks a handler up if the lock is free. -/
def claim (r : Registry η) (vector : UInt32) : Except InterruptError (Option η) × Registry η :=
  if r.tryLock.1 then (.ok (handler? r.tryLock.2 vector), r.tryLock.2.release)
  else (.error (.busy vector), r.tryLock.2)

end Registry

/-- What may happen in a run. -/
inductive InterruptEvent (η : Type) where
  | registered (vector : UInt8) (handler : η) (replaced : Option η)
  | called
  | started (handler : η)
  | answered (answer : Except InterruptError Unit)

/-- An event, with the registry and the frame right after it. -/
structure Moment (η : Type) where
  event : InterruptEvent η
  registry : Registry η
  frame : TrapFrame

/-- What a handler does: it reads and changes its frame, goes by what it remembers of the run so
far, registers handlers and dispatches its frame again, and goes on with what these calls answer.
To dispatch another frame it puts that frame in the place of its own for the time of the call. -/
inductive Routine (η : Type) where
  | done
  | look (next : TrapFrame → Routine η)
  | remember (next : List (Moment η) → Routine η)
  | change (f : TrapFrame → TrapFrame) (next : Routine η)
  | register (vector : UInt8) (handler : η) (next : Option η → Routine η)
  | dispatch (next : Except InterruptError Unit → Routine η)

/-- Why a run does not go on: it waits for the lock of the registry, or its dispatches are inside
one another more deeply than there is room for. -/
inductive Standstill where
  | waiting
  | tooDeep
  deriving Repr, DecidableEq

/-- A registry, the frame being handled and the trace so far. -/
structure IsrState (η : Type) where
  registry : Registry η
  frame : TrapFrame
  trace : List (Moment η) := []

namespace IsrState

variable {η : Type}

/-- Adds an event to the trace. -/
def note (s : IsrState η) (e : InterruptEvent η) : IsrState η :=
  { s with trace := s.trace ++ [⟨e, s.registry, s.frame⟩] }

end IsrState

/-- Runs a routine, given how to dispatch a frame. -/
def Routine.run {η : Type}
    (again : IsrState η → Except Standstill (Except InterruptError Unit) × IsrState η) :
    Routine η → IsrState η → Except Standstill Unit × IsrState η
  | .done, s => (.ok (), s)
  | .look next, s => run again (next s.frame) s
  | .remember next, s => run again (next s.trace) s
  | .change f next, s => run again next { s with frame := f s.frame }
  | .register vector h next, s =>
    match s.registry.register vector h with
    | none => (.error .waiting, s)
    | some (replaced, registry) =>
      run again (next replaced)
        ({ s with registry }.note (.registered vector h replaced))
  | .dispatch next, s =>
    match again (s.note .called) with
    | (.error stop, s') => (.error stop, s')
    | (.ok answer, s') => run again (next answer) (s'.note (.answered answer))

namespace IsrState

variable {η : Type}

/-- Runs the handler of the frame's vector, with at most `depth` dispatches inside one another. -/
def dispatch (routine : η → Routine η) :
    (depth : Nat) → IsrState η → Except Standstill (Except InterruptError Unit) × IsrState η
  | 0, s => (.error .tooDeep, s)
  | depth + 1, s =>
    match s.registry.claim s.frame.vector with
    | (.error err, registry) => (.ok (.error err), { s with registry })
    | (.ok none, registry) => (.ok (.error (.unhandled s.frame)), { s with registry })
    | (.ok (some h), registry) =>
      let (outcome, s') :=
        (routine h).run (dispatch routine depth) ({ s with registry }.note (.started h))
      (outcome.map .ok, s')

end IsrState

end PaeKernel
