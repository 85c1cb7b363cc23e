/-!
# Spin locks

A spin lock is a flag around a value. Who acquires it gets a guard, and dropping a guard clears the
flag. `tryLock` makes its guard before it looks at the outcome of the attempt, so a refused attempt
drops a guard too, and with it frees the lock.
-/

namespace PaeKernel

/-- A value with a flag that tells whether somebody holds it. -/
@[ext] structure SpinLock (α : Type) where
  locked : Bool := false
  value : α
  deriving Repr, DecidableEq

namespace SpinLock

variable {α β : Type}

/-- Sets the flag; succeeds if it was clear. -/
def acquire (l : SpinLock α) : Bool × SpinLock α := (!l.locked, { l with locked := true })

/-- Drops a guard. -/
def release (l : SpinLock α) : SpinLock α := { l with locked := false }

/-- Acquires the lock if it is free; a refused attempt drops its guard at once. -/
def tryLock (l : SpinLock α) : Bool × SpinLock α :=
  if l.acquire.1 then (true, l.acquire.2) else (false, l.acquire.2.release)

/-- Acquires the lock; while it is held there is no answer yet. -/
def lock? (l : SpinLock α) : Option (SpinLock α) :=
  if l.acquire.1 then some l.acquire.2 else none

/-- Changes the value with the lock held. -/
def modify (f : α → α) (l : SpinLock α) : SpinLock α := { l with value := f l.value }

/-- Acquires the lock, changes the value and releases the lock. -/
def withLock? (f : α → α) (l : SpinLock α) : Option (SpinLock α) :=
  l.lock?.map fun held => (held.modify f).release

theorem tryLock_eq (l : SpinLock α) :
    l.tryLock = if l.locked then (false, l.release) else (true, { l with locked := true }) := by
  cases h : l.locked <;> simp [tryLock, acquire, release, h]

theorem lock?_eq (l : SpinLock α) :
    l.lock? = if l.locked then none else some { l with locked := true } := by
  cases h : l.locked <;> simp [lock?, acquire, h]

theorem withLock?_eq (f : α → α) (l : SpinLock α) :
    l.withLock? f = if l.locked then none else some ⟨false, f l.value⟩ := by
  cases h : l.locked <;> simp [withLock?, lock?_eq, modify, release, h]

end SpinLock

/-- A call on a lock. -/
inductive LockCall where
  | lock
  | lockMasked
  | withLock
  | tryLock
  | isLocked
  | dropGuard
  deriving Repr, DecidableEq

end PaeKernel
