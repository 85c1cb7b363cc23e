import PaeKernel.Proofs.Heap.Audit
import PaeKernel.Proofs.Heap.ClientWrites
import PaeKernel.Proofs.Heap.Setup

/-!
# Runs of a heap

A run is a sequence of requests, releases and single bytes that clients write into their payloads.
`HeapRun.step_effect` says once what each of them does to a sound heap, `HeapRun.run_sound` carries
this over to whole runs: none of them panics, and the audit accepts every heap on the way.
-/

namespace PaeKernel

/-- Steps that never fail and keep a property are carried out to the last, and it is kept. -/
theorem exists_foldlM_eq_ok {ε σ α : Type} {step : σ → α → Except ε σ} {P : σ → Prop}
    (hstep : ∀ s, P s → ∀ x, ∃ s', step s x = .ok s' ∧ P s') {s : σ} (h : P s) (xs : List α) :
    ∃ s', xs.foldlM step s = .ok s' ∧ P s' := by
  induction xs generalizing s with
  | nil => exact ⟨s, rfl, h⟩
  | cons x rest ih =>
    obtain ⟨next, hnext, hkept⟩ := hstep s h x
    obtain ⟨last, hrun, hlast⟩ := ih hkept
    refine ⟨last, ?_, hlast⟩
    rw [List.foldlM_cons, hnext]
    exact hrun

/-- What a request was answered with: a payload that was asked to hold so many bytes. -/
structure Allocation where
  pointer : Nat
  size : Nat
  deriving Repr, DecidableEq

/-- An arena and the allocations handed out and not yet taken back. -/
structure HeapRun where
  arena : Arena
  live : List Allocation

/-- One step of the heap or of one of its clients. -/
inductive HeapCall where
  | malloc (size : Nat)
  | free (address : Nat)
  | write (address : Nat) (byte : UInt8)
  deriving Repr, DecidableEq

namespace HeapRun

/-- An arena before the first request. -/
def start (a : Arena) : HeapRun := ⟨a, []⟩

/-- Carries out one step. A client writes into payloads of blocks in use and nowhere else. -/
def step (r : HeapRun) : HeapCall → Except Panic HeapRun
  | .malloc size =>
    match Arena.malloc size r.arena with
    | (.ok (some pointer), a) => .ok ⟨a, ⟨pointer, size⟩ :: r.live⟩
    | (.ok none, a) => .ok ⟨a, r.live⟩
    | (.error e, _) => .error e
  | .free address =>
    match Arena.free address r.arena with
    | (.ok (.ok ()), a) => .ok ⟨a, r.live.filter (·.pointer != address)⟩
    | (.ok (.error _), a) => .ok ⟨a, r.live⟩
    | (.error e, _) => .error e
  | .write address byte =>
    if r.arena.payloads.any (·.Holds address) then
      .ok ⟨{ r.arena with memory := r.arena.memory.writeByte address byte }, r.live⟩
    else .ok r

/-- Carries out steps one after another. -/
def run (r : HeapRun) (calls : List HeapCall) : Except Panic HeapRun := calls.foldlM step r

variable {r r' : HeapRun} {call : HeapCall} {cells : List (List Cell)} {a : Arena}

/-! ### One step -/

/-- All that a step can do to a heap with these cells. -/
inductive Effect (cells : List (List Cell)) (r : HeapRun) : HeapCall → HeapRun → Prop
  | idle (call : HeapCall) (log : List Record) : Effect cells r call ⟨{ r.arena with log }, r.live⟩
  | served (size units : Nat) (p : Spot) (a : Arena) (hunits : unitsFor size = some units)
    (hcells : p.cells = cells) (hserved : Arena.Served r.arena a p units) :
    Effect cells r (.malloc size) ⟨a, ⟨p.address, size⟩ :: r.live⟩
  | released (p : Spot) (a : Arena) (hcells : p.cells = cells)
    (hreleased : Arena.Released r.arena a p) :
    Effect cells r (.free p.address) ⟨a, r.live.filter (·.pointer != p.address)⟩
  | written (q : Payload) (address : Nat) (byte : UInt8) (hq : q ∈ r.arena.payloads)
    (hholds : q.Holds address) : Effect cells r (.write address byte)
      ⟨{ r.arena with memory := r.arena.memory.writeByte address byte }, r.live⟩

theorem step_effect (h : r.arena.Sound cells) (hap : Arena.Apart r.arena.heap.spaces)
    (call : HeapCall) : ∃ r', r.step call = .ok r' ∧ Effect cells r call r' := by
  cases call with
  | malloc size =>
    rw [step]
    rcases Arena.malloc_eq h hap size with ⟨log, hrun⟩ | ⟨units, p, a, hunits, hcells, hrun, hserved⟩
    · rw [hrun]
      exact ⟨_, rfl, .idle _ log⟩
    · rw [hrun]
      exact ⟨_, rfl, .served size units p a hunits hcells hserved⟩
  | free address =>
    rw [step]
    rcases Arena.free_eq h hap address with ⟨err, hrun⟩ | ⟨p, a, hcells, rfl, hrun, hreleased⟩
    · rw [hrun]
      exact ⟨_, rfl, .idle _ r.arena.log⟩
    · rw [hrun]
      exact ⟨_, rfl, .released p a hcells hreleased⟩
  | write address byte =>
    rw [step]
    split
    · rename_i hany
      obtain ⟨q, hq, hholds⟩ := List.any_eq_true.1 hany
      exact ⟨_, rfl, .written q address byte hq (of_decide_eq_true hholds)⟩
    · exact ⟨_, rfl, .idle _ r.arena.log⟩

theorem sound_write (h : r.arena.Sound cells) (hap : Arena.Apart r.arena.heap.spaces) {q : Payload}
    (hq : q ∈ r.arena.payloads) {address : Nat} (hholds : q.Holds address) (byte : UInt8) :
    { r.arena with memory := r.arena.memory.writeByte address byte }.Sound cells :=
  h.client hap hq (Memory.sameOutside_writeByte hholds byte)

theorem Effect.sound (he : Effect cells r call r') (h : r.arena.Sound cells)
    (hap : Arena.Apart r.arena.heap.spaces) :
    r'.arena.heap.spaces = r.arena.heap.spaces ∧ ∃ cells', r'.arena.Sound cells' := by
  cases he with
  | idle => exact ⟨rfl, cells, h.spaces, h.free, h.used, h.capacity⟩
  | served size units p a hunits hcells hserved => exact ⟨hserved.kept, _, hserved.sound⟩
  | released p a hcells hreleased => exact ⟨hreleased.kept, _, hreleased.sound⟩
  | written q address byte hq hholds => exact ⟨rfl, cells, sound_write h hap hq hholds byte⟩

/-! ### Whole runs -/

/-- If no step panics and each keeps a property, no run panics and each keeps it. -/
theorem run_of_step {P : HeapRun → Prop}
    (hstep : ∀ r, P r → ∀ call, ∃ r', r.step call = .ok r' ∧ P r') (h : P r)
    (calls : List HeapCall) : ∃ r', r.run calls = .ok r' ∧ P r' :=
  exists_foldlM_eq_ok hstep h calls

/-- Every run from a sound heap of spaces apart from each other ends, and ends in such a heap. -/
theorem run_sound (h : r.arena.Sound cells) (hap : Arena.Apart r.arena.heap.spaces)
    (calls : List HeapCall) : ∃ r', r.run calls = .ok r'
      ∧ r'.arena.heap.spaces = r.arena.heap.spaces ∧ ∃ cells', r'.arena.Sound cells' := by
  refine run_of_step (P := fun s => s.arena.heap.spaces = r.arena.heap.spaces
    ∧ ∃ cells', s.arena.Sound cells') ?_ ⟨rfl, cells, h⟩ calls
  rintro s ⟨hspaces, own, hsound⟩ call
  obtain ⟨s', hstep, heffect⟩ := step_effect hsound (hspaces ▸ hap) call
  obtain ⟨hkept, hsound'⟩ := heffect.sound hsound (hspaces ▸ hap)
  exact ⟨s', hstep, hkept.trans hspaces, hsound'⟩

/-- No run of a heap just set up panics. After every step the audit accepts the heap, the words of
the spaces spell cells that fill them, and the counters are the sums over these cells. -/
theorem run_audit (h : a.SetUp) (calls : List HeapCall) : ∃ r, (start a).run calls = .ok r
    ∧ r.arena.audit = .ok (.ok ())
    ∧ r.arena.heap.spaces = a.heap.spaces
    ∧ r.arena.heap.freeUnits + r.arena.heap.usedUnits = r.arena.heap.capacityUnits
    ∧ ∃ cells, r.arena.Sound cells := by
  obtain ⟨hsound, hap⟩ := h.sound
  obtain ⟨r, hrun, hkept, cells, hlast⟩ := run_sound (r := start a) hsound hap calls
  exact ⟨r, hrun, Arena.audit_of_sound hlast, hkept, hlast.balance, cells, hlast⟩

theorem run_audit_sample : ∃ r,
    (start Arena.sample).run [.malloc 5, .malloc 1, .write 0x1020 7, .free 0x1020] = .ok r
      ∧ r.arena.audit = .ok (.ok ()) := by
  obtain ⟨r, hrun, haudit, -⟩ := run_audit Arena.setUp_sample
    [.malloc 5, .malloc 1, .write 0x1020 7, .free 0x1020]
  exact ⟨r, hrun, haudit⟩

end HeapRun

end PaeKernel
