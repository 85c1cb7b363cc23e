import PaeKernel.Lock.Spin

/-!
# Mutual exclusion of a spin lock

Any number of parties use one lock. `Contest` keeps the owner of every guard that is alive beside
the lock.

- While no attempt meets a held lock, at most one guard is alive, the flag tells whether there is
  one, and `tryLock` answers truthfully.
- A refused attempt clears the flag under the holder of the lock, and the next party gets in.

`Exclusive.excludes_iff` says that the second is the only way out of the first.
-/

namespace PaeKernel

/-- A call that a party makes. -/
structure LockEvent where
  party : Nat
  call : LockCall
  deriving Repr, DecidableEq

/-- A lock and the parties that own its live guards, once for each guard. -/
@[ext] structure Contest (α : Type) where
  lock : SpinLock α
  holders : List Nat := []
  deriving Repr, DecidableEq

namespace Contest

variable {α : Type} {s : Contest α} {e : LockEvent}

/-- The state after one call. A party drops guards of its own only; a call that would wait changes
nothing. A `withLock` that others interrupt is a `lock` and a later `dropGuard`. -/
def step (s : Contest α) (e : LockEvent) : Contest α :=
  match e.call with
  | .lock | .lockMasked =>
    match s.lock.lock? with
    | some lock => ⟨lock, e.party :: s.holders⟩
    | none => s
  | .withLock =>
    match s.lock.withLock? id with
    | some lock => ⟨lock, s.holders⟩
    | none => s
  | .tryLock =>
    ⟨s.lock.tryLock.2, if s.lock.tryLock.1 then e.party :: s.holders else s.holders⟩
  | .isLocked => s
  | .dropGuard => if e.party ∈ s.holders then ⟨s.lock.release, s.holders.erase e.party⟩ else s

/-- The state after a sequence of calls. -/
def run (s : Contest α) (events : List LockEvent) : Contest α := events.foldl step s

/-! ### The properties of a lock -/

/-- At most one guard is alive, and the flag is set exactly when one is. -/
def Exclusive (s : Contest α) : Prop :=
  s.holders.length ≤ 1 ∧ (s.lock.locked = true ↔ s.holders ≠ [])

/-- An attempt succeeds exactly when no guard is alive, and a refused one changes nothing. -/
def Answers (s : Contest α) (e : LockEvent) : Prop :=
  e.call = .tryLock → (s.lock.tryLock.1 = true ↔ s.holders = [])
    ∧ (s.lock.tryLock.1 = false → s.step e = s)

/-- All this holds before, during and after a sequence of calls. -/
def Excludes (s : Contest α) : List LockEvent → Prop
  | [] => s.Exclusive
  | e :: rest => s.Exclusive ∧ s.Answers e ∧ (s.step e).Excludes rest

/-- No attempt of a sequence of calls finds the lock held. -/
def NeverRefuses (s : Contest α) : List LockEvent → Prop
  | [] => True
  | e :: rest => (e.call = .tryLock → s.lock.locked = false) ∧ (s.step e).NeverRefuses rest

/-- The lock before anybody uses it. -/
def fresh (value : α) : Contest α := ⟨{ value }, []⟩

theorem exclusive_fresh (value : α) : (fresh value).Exclusive :=
  ⟨Nat.zero_le 1, iff_of_false Bool.false_ne_true (not_not_intro rfl)⟩

theorem Exclusive.holders_eq_nil_iff (h : s.Exclusive) :
    s.holders = [] ↔ s.lock.locked = false := by
  rw [← Bool.not_eq_true, h.2, Decidable.not_not]

/-- Taking a free lock. -/
theorem Exclusive.acquired (h : s.Exclusive) (hfree : s.lock.locked = false) (party : Nat) :
    Exclusive ⟨{ s.lock with locked := true }, party :: s.holders⟩ := by
  rw [h.holders_eq_nil_iff.2 hfree]
  exact ⟨Nat.le_refl 1, iff_of_true rfl (List.cons_ne_nil _ _)⟩

theorem step_exclusive (h : s.Exclusive) (he : e.call = .tryLock → s.lock.locked = false) :
    (s.step e).Exclusive := by
  obtain ⟨party, call⟩ := e
  cases call with
  | lock | lockMasked =>
    simp only [step, SpinLock.lock?_eq]
    by_cases hlocked : s.lock.locked = true
    · rw [if_pos hlocked]
      exact h
    · rw [if_neg hlocked]
      exact h.acquired (Bool.eq_false_iff.2 hlocked) party
  | withLock =>
    simp only [step, SpinLock.withLock?_eq]
    by_cases hlocked : s.lock.locked = true
    · rw [if_pos hlocked]
      exact h
    · rw [if_neg hlocked]
      have hnil := h.holders_eq_nil_iff.2 (Bool.eq_false_iff.2 hlocked)
      exact ⟨h.1, iff_of_false Bool.false_ne_true (not_not_intro hnil)⟩
  | tryLock =>
    have hfree := he rfl
    simp only [step, SpinLock.tryLock_eq, hfree]
    exact h.acquired hfree party
  | isLocked => exact h
  | dropGuard =>
    simp only [step]
    by_cases hmem : party ∈ s.holders
    · rw [if_pos hmem]
      have hlen : (s.holders.erase party).length = 0 := by
        have := h.1
        rw [List.length_erase_of_mem hmem]
        omega
      have hnil := List.eq_nil_of_length_eq_zero hlen
      rw [hnil]
      exact ⟨Nat.zero_le 1, iff_of_false Bool.false_ne_true (not_not_intro rfl)⟩
    · rw [if_neg hmem]
      exact h

/-- From a lock in order an attempt is answered as it should be exactly when it is not refused. -/
theorem Exclusive.answers_iff (h : s.Exclusive) :
    s.Answers e ↔ (e.call = .tryLock → s.lock.locked = false) := by
  constructor
  · intro hanswers htry
    cases hlocked : s.lock.locked with
    | false => rfl
    | true =>
      have hrefused : s.lock.tryLock = (false, s.lock.release) := by
        rw [SpinLock.tryLock_eq, if_pos hlocked]
      -- the guard of the refused attempt has cleared the flag
      have hsame := (hanswers htry).2 (by rw [hrefused])
      have hflag : (s.step e).lock.locked = false := by
        unfold step
        rw [htry, hrefused]
        rfl
      rw [hsame, hlocked] at hflag
      exact hflag
  · intro hfree htry
    have hopen := hfree htry
    have hgranted : s.lock.tryLock = (true, { s.lock with locked := true }) := by
      rw [SpinLock.tryLock_eq, if_neg (by rw [hopen]; exact Bool.false_ne_true)]
    rw [hgranted]
    exact ⟨iff_of_true rfl (h.holders_eq_nil_iff.2 hopen), fun hf => absurd hf.symm Bool.false_ne_true⟩

theorem Exclusive.excludes_iff (h : s.Exclusive) (events : List LockEvent) :
    s.Excludes events ↔ s.NeverRefuses events := by
  induction events generalizing s with
  | nil => exact iff_of_true h trivial
  | cons e rest ih =>
    constructor
    · rintro ⟨-, hanswers, hrest⟩
      have hfree := h.answers_iff.1 hanswers
      exact ⟨hfree, (ih (step_exclusive h hfree)).1 hrest⟩
    · rintro ⟨hfree, hrest⟩
      exact ⟨h, h.answers_iff.2 hfree, (ih (step_exclusive h hfree)).2 hrest⟩

/-- A refused attempt lets the next party in beside the holder. -/
theorem holders_after_refusal (h : s.lock.locked = true) (refused next : Nat) :
    (s.run [⟨refused, .tryLock⟩, ⟨next, .lock⟩]).holders = next :: s.holders := by
  simp [run, step, SpinLock.tryLock_eq, SpinLock.lock?_eq, SpinLock.release, h]

example : ((fresh 0).run [⟨0, .lock⟩, ⟨1, .tryLock⟩, ⟨2, .lock⟩]).holders = [2, 0] := by decide

/-- A lock excludes throughout a sequence of calls exactly when none of its attempts is refused. -/
theorem excludes_fresh_iff (value : α) (events : List LockEvent) :
    (fresh value).Excludes events ↔ (fresh value).NeverRefuses events :=
  (exclusive_fresh value).excludes_iff events

end Contest

end PaeKernel
