import PaeKernel.Lock.Spin

/-!
# One holder of a lock

A holder uses a lock through one place for a guard. A guard put where there is one already pushes
the old one out, and a guard pushed out is dropped. Calls that would wait have no answer.
-/

namespace PaeKernel

/-- A lock and whether its holder keeps a guard. -/
@[ext] structure Holder (α : Type) where
  lock : SpinLock α
  held : Bool := false
  deriving Repr, DecidableEq

namespace Holder

variable {α : Type}

/-- Keeps a fresh guard of the lock. -/
def keep (h : Holder α) (lock : SpinLock α) : Holder α :=
  ⟨if h.held then lock.release else lock, true⟩

/-- Acquires the lock and keeps the guard. -/
def lock? (h : Holder α) : Option (Holder α) := h.lock.lock?.map h.keep

/-- Tries to acquire the lock and keeps the guard. -/
def tryLock (h : Holder α) : Bool × Holder α :=
  if h.lock.tryLock.1 then (true, h.keep h.lock.tryLock.2)
  else (false, { h with lock := h.lock.tryLock.2 })

/-- Drops the guard, if one is kept. -/
def release (h : Holder α) : Bool × Holder α :=
  if h.held then (true, ⟨h.lock.release, false⟩) else (false, h)

/-- The value seen through the guard. -/
def get? (h : Holder α) : Option α := if h.held then some h.lock.value else none

/-- Changes the value through the guard. -/
def set? (h : Holder α) (value : α) : Option (Holder α) :=
  if h.held then some { h with lock := h.lock.modify fun _ => value } else none

/-- Changes the value with the lock held for just this change. -/
def withLock? (h : Holder α) (f : α → α) : Option (Holder α) :=
  (h.lock.withLock? f).map fun lock => { h with lock }

/-- Changes the value without the lock, which nobody holds. -/
def change? (h : Holder α) (f : α → α) : Option (Holder α) :=
  if h.lock.locked then none else some { h with lock := h.lock.modify f }

/-- Changes the value with the lock held while another party waits to change it too. -/
def contend? (h : Holder α) (mine theirs : α → α) : Option (Holder α) :=
  (h.withLock? mine).bind (·.withLock? theirs)

end Holder

/-! ### Interrupts around a lock -/

/-- The interrupt flag among the processor's flags. -/
def interruptFlag (eflags : Nat) : Bool := (eflags >>> 9) % 2 == 1

/-- What is remembered when interrupts are masked. -/
structure MaskGuard where
  wereEnabled : Bool
  deriving Repr, DecidableEq

/-- The processor's flags away from the bare machine, where interrupts cannot be masked. -/
def hostedFlags : Nat := 0

/-- Masks interrupts and remembers whether they were enabled. -/
def MaskGuard.ofFlags (eflags : Nat) : MaskGuard := ⟨interruptFlag eflags⟩

/-- The processor's flags after a mask was put on. -/
def maskedFlags (eflags : Nat) : Nat :=
  if interruptFlag eflags then eflags - 0x200 else eflags

end PaeKernel
