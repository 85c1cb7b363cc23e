import PaeKernel.Interrupt.Stock

/-!
# Handlers that use the registry

A handler may register handlers and dispatch frames on the registry that started it, to any depth
and going by anything that happened before. The registry serves it as a table without a lock would:

- `Routine.Served` gives the rules of such a table. It finds the handler of a vector in the trace
  (`lastRegistered`), runs that handler itself, and has no rule for waiting or for a busy table.
- `Registry.Current` says that the lock is free and each vector has the handler last registered for
  it; in a `Faithful` state this was so at every moment of the trace.

The rules allow one outcome for each program (`Routine.Served.unique`), and `programs_are_served`
says that this is the outcome of its run. The one way for it not to end is to have as many handlers
inside one another as there is room for.
-/

namespace PaeKernel

variable {η : Type}

/-! ### The registry without its lock -/

/-- The handler that an event gives to a vector. -/
def InterruptEvent.handlerFor? (v : UInt8) : InterruptEvent η → Option η
  | .registered w h _ => if w = v then some h else none
  | .called | .started _ | .answered _ => none

/-- The handler last registered for a vector. -/
def lastRegistered (t : List (Moment η)) (v : UInt8) : Option η :=
  t.reverse.findSome? fun m => m.event.handlerFor? v

theorem lastRegistered_concat (t : List (Moment η)) (m : Moment η) (v : UInt8) :
    lastRegistered (t ++ [m]) v = (m.event.handlerFor? v).or (lastRegistered t v) := by
  rw [lastRegistered, List.reverse_append, List.reverse_singleton, List.singleton_append,
    List.findSome?_cons]
  cases m.event.handlerFor? v <;> rfl

namespace Registry

variable {r : Registry η} {t : List (Moment η)}

/-- The lock is free and each vector has the handler last registered for it. -/
structure Current (r : Registry η) (t : List (Moment η)) : Prop where
  free : r.locked = false
  handler : ∀ v : UInt8, r.handler? v.toUInt32 = lastRegistered t v

theorem current_empty : (empty : Registry η).Current [] := by
  refine ⟨rfl, fun v => ?_⟩
  simp [handler?, empty, lastRegistered, v.toNat_lt]

theorem claim_of_free (h : r.locked = false) (vector : UInt32) :
    r.claim vector = (.ok (r.handler? vector), r) := by
  obtain ⟨locked, value⟩ := r
  cases h
  rfl

/-- The registry with another handler for a vector, and its lock free. -/
def put (r : Registry η) (vector : UInt8) (h : η) : Registry η :=
  { value := r.value.set vector.toNat (some h) vector.toNat_lt }

theorem register_of_free (hfree : r.locked = false) (vector : UInt8) (h : η) :
    r.register vector h = some (r.handler? vector.toUInt32, r.put vector h) := by
  obtain ⟨locked, value⟩ := r
  cases hfree
  simp [register, SpinLock.lock?_eq, SpinLock.modify, SpinLock.release, handler?, vector.toNat_lt]
  exact ⟨rfl, rfl⟩

theorem Current.put (hr : r.Current t) (vector : UInt8) (h : η) {m : Moment η}
    {replaced : Option η} (hm : m.event = .registered vector h replaced) :
    (r.put vector h).Current (t ++ [m]) := by
  refine ⟨rfl, fun v => ?_⟩
  rw [lastRegistered_concat, hm, InterruptEvent.handlerFor?, ← hr.handler v]
  by_cases hv : vector = v
  · simp [handler?, Registry.put, hv, v.toNat_lt]
  · have hne : vector.toNat ≠ v.toNat := fun h => hv (UInt8.toNat_inj.1 h)
    simp [handler?, Registry.put, hv, hne]

theorem Current.concat (hr : r.Current t) {m : Moment η}
    (hm : ∀ v, m.event.handlerFor? v = none) : r.Current (t ++ [m]) :=
  ⟨hr.free, fun v => by rw [lastRegistered_concat, hm v, hr.handler v, Option.none_or]⟩

/-- A vector that is not of the table has no handler. -/
theorem Current.exists_of_handler? (hr : r.Current t) {vector : UInt32} {h : η}
    (hh : r.handler? vector = some h) :
    ∃ v : UInt8, vector = v.toUInt32 ∧ lastRegistered t v = some h := by
  have hlt : vector.toNat < 256 := by
    refine Nat.lt_of_not_le fun hge => ?_
    simp [handler?, Nat.not_lt.2 hge] at hh
  have hv : vector = vector.toUInt8.toUInt32 := by
    apply UInt32.toNat_inj.1
    simp
    omega
  exact ⟨vector.toUInt8, hv, by rw [← hr.handler, ← hv, hh]⟩

end Registry

/-! ### A table without a lock -/

/-- What running a routine on a table without a lock comes to, with room for so many dispatches
inside one another. A registration answers with the handler it replaces. A dispatch of a frame whose
vector is not of the table, or has no handler, hands the frame back and changes neither frame nor
table. Any other runs the handler last registered for that vector, once and on that frame, and then
the routine goes on with the frame and the table that this handler left. -/
inductive Routine.Served (routine : η → Routine η) :
    Nat → Routine η → IsrState η → Except Standstill Unit × IsrState η → Prop
  | done {room s} : Served routine room .done s (.ok (), s)
  | look {room next s r} : Served routine room (next s.frame) s r →
      Served routine room (.look next) s r
  | remember {room next s r} : Served routine room (next s.trace) s r →
      Served routine room (.remember next) s r
  | change {room f next s r} : Served routine room next { s with frame := f s.frame } r →
      Served routine room (.change f next) s r
  | register {room vector h next s r} :
      Served routine room (next (lastRegistered s.trace vector))
        ({ s with registry := s.registry.put vector h }.note
          (.registered vector h (lastRegistered s.trace vector))) r →
      Served routine room (.register vector h next) s r
  | refuse {room next s r} :
      (∀ v : UInt8, s.frame.vector = v.toUInt32 → lastRegistered s.trace v = none) →
      Served routine (room + 1) (next (.error (.unhandled s.frame)))
        ((s.note .called).note (.answered (.error (.unhandled s.frame)))) r →
      Served routine (room + 1) (.dispatch next) s r
  | handle {room v h next s s' r} :
      s.frame.vector = v.toUInt32 → lastRegistered s.trace v = some h →
      Served routine room (routine h) ((s.note .called).note (.started h)) (.ok (), s') →
      Served routine (room + 1) (next (.ok ())) (s'.note (.answered (.ok ()))) r →
      Served routine (room + 1) (.dispatch next) s r
  | stuck {room v h next s s'} :
      s.frame.vector = v.toUInt32 → lastRegistered s.trace v = some h →
      Served routine room (routine h) ((s.note .called).note (.started h))
        (.error .tooDeep, s') →
      Served routine (room + 1) (.dispatch next) s (.error .tooDeep, s')
  | tooDeep {next s} : Served routine 0 (.dispatch next) s (.error .tooDeep, s.note .called)

/-- A registry without handlers, and a frame. -/
def IsrState.fresh (frame : TrapFrame) : IsrState η := { registry := .empty, frame }

/-- The registry is current, and was at every moment of the trace. -/
structure IsrState.Faithful (s : IsrState η) : Prop where
  now : s.registry.Current s.trace
  always : ∀ u m, u ++ [m] <+: s.trace → m.registry.Current (u ++ [m])

namespace IsrState.Faithful

variable {s : IsrState η}

theorem fresh (frame : TrapFrame) : (IsrState.fresh frame : IsrState η).Faithful :=
  ⟨Registry.current_empty, fun u _ hpre =>
    absurd (List.prefix_nil.1 hpre) (List.append_ne_nil_of_right_ne_nil u (List.cons_ne_nil _ _))⟩

theorem of_note {e : InterruptEvent η}
    (h : ∀ u m, u ++ [m] <+: s.trace → m.registry.Current (u ++ [m]))
    (hnow : s.registry.Current (s.note e).trace) : (s.note e).Faithful := by
  refine ⟨hnow, fun u m hpre => ?_⟩
  rcases List.prefix_concat_iff.1 hpre with heq | hbefore
  · obtain ⟨rfl, hm⟩ := List.append_inj' heq rfl
    cases hm
    exact hnow
  · exact h u m hbefore

theorem note (hs : s.Faithful) {e : InterruptEvent η} (he : ∀ v, e.handlerFor? v = none) :
    (s.note e).Faithful :=
  of_note hs.always (hs.now.concat he)

end IsrState.Faithful

/-! ### One outcome -/

theorem handler_unique {t : List (Moment η)} {f : TrapFrame} {v w : UInt8} {h h' : η}
    (hv : f.vector = v.toUInt32) (hh : lastRegistered t v = some h)
    (hw : f.vector = w.toUInt32) (hh' : lastRegistered t w = some h') : h = h' := by
  obtain rfl : v = w := UInt8.toUInt32_inj.1 (hv.symm.trans hw)
  exact Option.some.inj (hh.symm.trans hh')

/-- The rules leave no choice. -/
theorem Routine.Served.unique {routine : η → Routine η} {room : Nat} {p : Routine η}
    {s : IsrState η} {r r' : Except Standstill Unit × IsrState η} (h : p.Served routine room s r)
    (h' : p.Served routine room s r') : r = r' := by
  induction h generalizing r' with
  | done =>
    cases h'
    rfl
  | look _ ih =>
    cases h' with
    | look hnext => exact ih hnext
  | remember _ ih =>
    cases h' with
    | remember hnext => exact ih hnext
  | change _ ih =>
    cases h' with
    | change hnext => exact ih hnext
  | register _ ih =>
    cases h' with
    | register hnext => exact ih hnext
  | refuse hnone _ ih =>
    cases h' with
    | refuse _ hnext => exact ih hnext
    | handle hv hh | stuck hv hh => cases (hnone _ hv).symm.trans hh
  | handle hv hh _ _ ihhandler ih =>
    -- both runs start the same handler, and it leaves them in the same state
    cases h' with
    | refuse hnone => cases (hnone _ hv).symm.trans hh
    | handle hw hh' hrun hnext =>
      cases handler_unique hv hh hw hh'
      cases ihhandler hrun
      exact ih hnext
    | stuck hw hh' hrun =>
      cases handler_unique hv hh hw hh'
      cases ihhandler hrun
  | stuck hv hh _ ihhandler =>
    cases h' with
    | refuse hnone => cases (hnone _ hv).symm.trans hh
    | handle hw hh' hrun =>
      cases handler_unique hv hh hw hh'
      cases ihhandler hrun
    | stuck hw hh' hrun =>
      cases handler_unique hv hh hw hh'
      exact ihhandler hrun
  | tooDeep =>
    cases h'
    rfl

/-- A routine comes to its end, or there is no room for one of its dispatches. -/
theorem Routine.Served.outcome {routine : η → Routine η} {room : Nat} {p : Routine η}
    {s : IsrState η} {r : Except Standstill Unit × IsrState η} (h : p.Served routine room s r) :
    r.1 = .ok () ∨ r.1 = .error .tooDeep := by
  induction h with
  | done => exact .inl rfl
  | look _ ih | remember _ ih | change _ ih | register _ ih | refuse _ _ ih => exact ih
  | handle _ _ _ _ _ ih => exact ih
  | stuck | tooDeep => exact .inr rfl

/-! ### Runs -/

variable {routine : η → Routine η} {room depth : Nat} {s : IsrState η}

/-- The run of a routine is served, and its registry stays faithful. -/
def Routine.RunServed (routine : η → Routine η) (room : Nat) (p : Routine η) (s : IsrState η) :
    Prop :=
  p.Served routine room s (p.run (IsrState.dispatch routine room) s)
    ∧ (p.run (IsrState.dispatch routine room) s).2.Faithful

namespace IsrState

theorem dispatch_of_none (hfree : s.registry.locked = false)
    (hh : s.registry.handler? s.frame.vector = none) :
    dispatch routine (depth + 1) s = (.ok (.error (.unhandled s.frame)), s) := by
  simp only [dispatch, Registry.claim_of_free hfree, hh]

theorem dispatch_of_some (hfree : s.registry.locked = false) {h : η}
    (hh : s.registry.handler? s.frame.vector = some h) {outcome : Except Standstill Unit}
    {s' : IsrState η}
    (hrun : (routine h).run (dispatch routine depth) (s.note (.started h)) = (outcome, s')) :
    dispatch routine (depth + 1) s = (outcome.map .ok, s') := by
  simp only [dispatch, Registry.claim_of_free hfree, hh, hrun]

end IsrState

/-- All but the dispatches of a routine is served as it stands. -/
theorem Routine.runServed_of_dispatch
    (hdispatch : ∀ (next : Except InterruptError Unit → Routine η) (s : IsrState η), s.Faithful →
      (∀ answer s', IsrState.Faithful s' → (next answer).RunServed routine room s') →
      (Routine.dispatch next).RunServed routine room s)
    (p : Routine η) (hs : s.Faithful) : p.RunServed routine room s := by
  induction p generalizing s with
  | done => exact ⟨.done, hs⟩
  | look next ih => exact (ih s.frame hs).imp_left .look
  | remember next ih => exact (ih s.trace hs).imp_left .remember
  | change f next ih =>
    have hchanged : IsrState.Faithful { s with frame := f s.frame } := ⟨hs.now, hs.always⟩
    exact (ih hchanged).imp_left .change
  | register vector h next ih =>
    have hput : ({ s with registry := s.registry.put vector h }.note
        (.registered vector h (lastRegistered s.trace vector)) : IsrState η).Faithful :=
      .of_note hs.always (hs.now.put vector h rfl)
    have hrun : (Routine.register vector h next).run (IsrState.dispatch routine room) s
        = (next (lastRegistered s.trace vector)).run (IsrState.dispatch routine room)
          ({ s with registry := s.registry.put vector h }.note
            (.registered vector h (lastRegistered s.trace vector))) := by
      simp only [Routine.run, Registry.register_of_free hs.now.free, hs.now.handler]
    rw [RunServed, hrun]
    exact (ih _ hput).imp_left .register
  | dispatch next ih => exact hdispatch next s hs fun answer s' hs' => ih answer hs'

theorem Routine.runServed_dispatch_zero (next : Except InterruptError Unit → Routine η)
    (hs : s.Faithful) : (Routine.dispatch next).RunServed routine 0 s :=
  ⟨.tooDeep, hs.note fun _ => rfl⟩

theorem Routine.runServed_dispatch_succ
    (hroutine : ∀ h (s : IsrState η), s.Faithful → (routine h).RunServed routine room s)
    (next : Except InterruptError Unit → Routine η) (hs : s.Faithful)
    (hnext : ∀ answer s', IsrState.Faithful s' → (next answer).RunServed routine (room + 1) s') :
    (Routine.dispatch next).RunServed routine (room + 1) s := by
  have hcalled : (s.note .called).Faithful := hs.note fun _ => rfl
  cases hh : s.registry.handler? s.frame.vector with
  | none =>
    have hnone : ∀ v : UInt8, s.frame.vector = v.toUInt32 → lastRegistered s.trace v = none := by
      intro v hv
      rw [← hs.now.handler v, ← hv, hh]
    have hcall : IsrState.dispatch routine (room + 1) (s.note .called)
        = (.ok (.error (.unhandled s.frame)), s.note .called) :=
      IsrState.dispatch_of_none hcalled.now.free hh
    rw [RunServed, Routine.run, hcall]
    exact (hnext _ _ (hcalled.note fun _ => rfl)).imp_left (.refuse hnone)
  | some h =>
    obtain ⟨v, hv, hlast⟩ := hs.now.exists_of_handler? hh
    obtain ⟨hserved, hs'⟩ := hroutine h _ (hcalled.note (e := .started h) fun _ => rfl)
    rcases hrun : (routine h).run (IsrState.dispatch routine room)
      ((s.note .called).note (.started h)) with ⟨outcome, s'⟩
    rw [hrun] at hserved hs'
    have hcall := IsrState.dispatch_of_some hcalled.now.free hh hrun
    rw [RunServed, Routine.run, hcall]
    rcases hserved.outcome with rfl | rfl
    · exact (hnext _ _ (hs'.note fun _ => rfl)).imp_left (.handle hv hlast hserved)
    · exact ⟨.stuck hv hlast hserved, hs'⟩

theorem Routine.runServed (routine : η → Routine η) (room : Nat) (p : Routine η)
    (hs : s.Faithful) : p.RunServed routine room s := by
  -- a handler runs with one place less than the routine that dispatched its frame
  induction room generalizing p s with
  | zero => exact runServed_of_dispatch (fun next _ hs _ => runServed_dispatch_zero next hs) p hs
  | succ room ih =>
    exact runServed_of_dispatch
      (fun next _ => runServed_dispatch_succ (fun h _ => ih (routine h)) next) p hs

/-! ### Room for dispatches -/

theorem Routine.run_of_ok
    {again again' : IsrState η → Except Standstill (Except InterruptError Unit) × IsrState η}
    (hagain : ∀ s answer s', again s = (.ok answer, s') → again' s = (.ok answer, s'))
    (p : Routine η) {s s' : IsrState η} (h : p.run again s = (.ok (), s')) :
    p.run again' s = (.ok (), s') := by
  induction p generalizing s with
  | done => exact h
  | look next ih => exact ih _ h
  | remember next ih => exact ih _ h
  | change f next ih => exact ih h
  | register vector handler next ih =>
    simp only [Routine.run] at h ⊢
    split at h
    · cases h
    · exact ih _ h
  | dispatch next ih =>
    simp only [Routine.run] at h ⊢
    split at h
    · cases h
    · next hcall =>
      rw [hagain _ _ _ hcall]
      exact ih _ h

/-- An answer that was given does not depend on how much room there was. -/
theorem IsrState.dispatch_of_ok {routine : η → Routine η} {s s' : IsrState η}
    {answer : Except InterruptError Unit} (h : dispatch routine depth s = (.ok answer, s'))
    (room : Nat) : dispatch routine (depth + room) s = (.ok answer, s') := by
  induction depth generalizing s s' answer with
  | zero => cases h
  | succ depth ih =>
    rw [Nat.succ_add]
    simp only [dispatch] at h ⊢
    split at h
    · exact h
    · exact h
    · next handler registry hclaim =>
      rcases hrun : (routine handler).run (dispatch routine depth)
        ({ s with registry }.note (.started handler)) with ⟨stop | _, after⟩
      · rw [hrun] at h
        cases h
      · rw [hrun] at h
        rw [(routine handler).run_of_ok (fun _ _ _ => ih) hrun]
        exact h

/-- Whatever the handlers of a fresh registry do with it, each program runs as on a table without a
lock, and the lock was free and every handler in force at every moment. A program that ends does so
in the same way when there is more room. -/
theorem programs_are_served (routine : η → Routine η) (program : Routine η) (depth room : Nat)
    (frame : TrapFrame) :
    (∀ r, program.run (IsrState.dispatch routine depth) (.fresh frame) = r
      ↔ program.Served routine depth (.fresh frame) r)
    ∧ (program.run (IsrState.dispatch routine depth) (.fresh frame)).2.Faithful
    ∧ ∀ s, program.run (IsrState.dispatch routine depth) (.fresh frame) = (.ok (), s) →
      program.run (IsrState.dispatch routine (depth + room)) (.fresh frame) = (.ok (), s) := by
  obtain ⟨hserved, hfaithful⟩ := program.runServed routine depth (.fresh frame)
  refine ⟨fun r => ⟨?_, hserved.unique⟩, hfaithful, fun _ => program.run_of_ok ?_⟩
  · rintro rfl
    exact hserved
  · exact fun _ _ _ h => IsrState.dispatch_of_ok h room

/-- The handler that forwards starts the one that replaces a handler, which is then in force. -/
example :
    let program := .register 3 .forward fun _ => .register 4 .rearm fun _ =>
      .dispatch fun _ => .dispatch fun _ => .done
    (Routine.run (IsrState.dispatch StockHandler.routine 2) program
      (.fresh { vector := 3, eax := 4, ebx := 7, edx := 4 })).2.frame.eax = 8 := by decide

end PaeKernel
