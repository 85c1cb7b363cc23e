import PaeKernel.Word

/-!
# Panics and the computations that may end in one

A failed check stops a computation at once, but everything done to the state before the check
stays done. `Exec σ α` therefore returns the state beside the outcome in both cases. The checks
themselves are causes, and `Panic.message` is the only place that words them.
-/

namespace PaeKernel

/-- What a failed check reports. -/
inductive Panic where
  | addOverflow
  | subOverflow
  | mulOverflow
  | indexOutOfBounds (len index : Nat)
  | fieldTooLarge (max : Nat)
  | pdptIndexTooLarge
  | tableIndexTooLarge
  | addressIndicesTooLarge
  | unalignedRoot
  | distantRoot
  | unalignedFrame
  | unalignedTable
  | unitOutside (unit len : Nat)
  | blockTooLarge
  | unfitBlock
  | releaseOfFree
  | unbalancedTotals (blocks capacity : Nat)
  | noInterruptTable
  | gaveUp (reason : String)
  deriving Repr, DecidableEq

/-- The text of a panic. -/
def Panic.message : Panic → String
  | .addOverflow => "attempt to add with overflow"
  | .subOverflow => "attempt to subtract with overflow"
  | .mulOverflow => "attempt to multiply with overflow"
  | .indexOutOfBounds len index =>
    s!"index out of bounds: the len is {len} but the index is {index}"
  | .fieldTooLarge max => s!"value out of bounds [0, {max}]"
  | .pdptIndexTooLarge => "assertion failed: (v as usize) < PDPT_ENTRIES"
  | .tableIndexTooLarge => "assertion failed: (v as usize) < TABLE_ENTRIES"
  | .addressIndicesTooLarge => "assertion failed: pdpt < 4 && pd < 512 && pt < 512"
  | .unalignedRoot => "PDPT base must be 32-byte aligned"
  | .distantRoot => "PDPT must live below 4 GiB"
  | .unalignedFrame => "assertion failed: frame.is_aligned_to(PAGE_SIZE)"
  | .unalignedTable => "assertion failed: pa.is_aligned_to(PAGE_SIZE)"
  | .unitOutside unit len => s!"unit {unit} outside a {len}-unit space"
  | .blockTooLarge => "assertion failed: units <= MAX_BLOCK_UNITS"
  | .unfitBlock => "assertion failed: !found.is_used() && found.units() >= units"
  | .releaseOfFree => "assertion failed: self.size(index).is_used()"
  | .unbalancedTotals blocks capacity =>
    s!"assertion `left == right` failed\n  left: {blocks}\n right: {capacity}"
  | .noInterruptTable => "IDT is not installed"
  | .gaveUp reason => reason

/-! ### Word arithmetic -/

/-- The sum of two words, which must be a word. -/
def addWord (a b : Nat) : Except Panic Nat :=
  if a + b < wordLimit then .ok (a + b) else .error .addOverflow

/-- The difference of two words, which must not be negative. -/
def subWord (a b : Nat) : Except Panic Nat :=
  if b ≤ a then .ok (a - b) else .error .subOverflow

theorem addWord_of_lt {a b : Nat} (h : a + b < wordLimit) : addWord a b = .ok (a + b) := by
  simp [addWord, h]

theorem subWord_of_le {a b : Nat} (h : b ≤ a) : subWord a b = .ok (a - b) := by
  simp [subWord, h]

/-! ### Computations over a state -/

/-- A computation over the state `σ`; a panic keeps the state it happened in. -/
def Exec (σ α : Type) : Type := σ → Except Panic α × σ

namespace Exec

variable {σ τ α β : Type}

/-- Gives back a value and leaves the state alone. -/
protected def pure (a : α) : Exec σ α := fun s => (.ok a, s)

/-- Runs the second computation in the state the first one ended in, unless that one panicked. -/
protected def bind (x : Exec σ α) (f : α → Exec σ β) : Exec σ β := fun s =>
  match x s with
  | (.ok a, s') => f a s'
  | (.error e, s') => (.error e, s')

instance : Monad (Exec σ) where
  pure := Exec.pure
  bind := Exec.bind

/-- A view of the current state. -/
def view (f : σ → α) : Exec σ α := fun s => (.ok (f s), s)

/-- Replaces the current state. -/
def update (f : σ → σ) : Exec σ Unit := fun s => (.ok (), f s)

/-- Stops with a panic. -/
def panic (e : Panic) : Exec σ α := fun s => (.error e, s)

/-- Goes on with a value or stops with a panic. -/
def check (r : Except Panic α) : Exec σ α := fun s => (r, s)

/-- Goes on if the condition holds. -/
def require (c : Prop) [Decidable c] (e : Panic) : Exec σ Unit :=
  if c then Exec.pure () else panic e

/-- Runs a computation on a part of the state. -/
def zoom (get : σ → τ) (put : σ → τ → σ) (x : Exec τ α) : Exec σ α := fun s =>
  ((x (get s)).1, put s (x (get s)).2)

@[simp] theorem pure_apply (a : α) (s : σ) : (Pure.pure a : Exec σ α) s = (.ok a, s) := rfl

theorem bind_apply (x : Exec σ α) (f : α → Exec σ β) (s : σ) :
    (x >>= f) s = match x s with
      | (.ok a, s') => f a s'
      | (.error e, s') => (.error e, s') := rfl

theorem bind_of_ok {x : Exec σ α} {f : α → Exec σ β} {s s' : σ} {a : α} (h : x s = (.ok a, s')) :
    (x >>= f) s = f a s' := by
  simp [bind_apply, h]

theorem bind_of_error {x : Exec σ α} {f : α → Exec σ β} {s s' : σ} {e : Panic}
    (h : x s = (.error e, s')) : (x >>= f) s = (.error e, s') := by
  simp [bind_apply, h]

theorem bind_eq_ok_iff {x : Exec σ α} {f : α → Exec σ β} {s t : σ} {b : β} :
    (x >>= f) s = (.ok b, t) ↔ ∃ a s', x s = (.ok a, s') ∧ f a s' = (.ok b, t) := by
  rw [bind_apply]
  rcases x s with ⟨r, s'⟩
  cases r with
  | ok a => exact ⟨fun h => ⟨a, s', rfl, h⟩, fun ⟨_, _, hx, h⟩ => by cases hx; exact h⟩
  | error e =>
    constructor
    · intro h
      cases h
    · rintro ⟨_, _, hx, _⟩
      cases hx

@[simp] theorem view_apply (f : σ → α) (s : σ) : view f s = (.ok (f s), s) := rfl

@[simp] theorem update_apply (f : σ → σ) (s : σ) : update f s = (.ok (), f s) := rfl

@[simp] theorem panic_apply (e : Panic) (s : σ) : (panic e : Exec σ α) s = (.error e, s) := rfl

@[simp] theorem check_apply (r : Except Panic α) (s : σ) : check r s = (r, s) := rfl

theorem require_apply (c : Prop) [Decidable c] (e : Panic) (s : σ) :
    require c e s = (if c then .ok () else .error e, s) := by
  by_cases h : c <;> simp [require, h, Exec.pure]

theorem require_bind_of_pos {c : Prop} [Decidable c] (h : c) (e : Panic) (f : Unit → Exec σ α)
    (s : σ) : (require c e >>= f) s = f () s :=
  bind_of_ok (by rw [require_apply, if_pos h])

theorem require_bind_of_neg {c : Prop} [Decidable c] (h : ¬ c) (e : Panic) (f : Unit → Exec σ α)
    (s : σ) : (require c e >>= f) s = (.error e, s) :=
  bind_of_error (by rw [require_apply, if_neg h])

end Exec

end PaeKernel
