import PaeKernel.Proofs.Heap.Reallocation

/-!
# Runs of the allocator

Clients of the allocator hold grants, pointers with the layouts they asked for. Without the layouts a
run of the allocator is one of the heap (`AllocatorRun.heapRun`), so its grants are isolated from
each other at every point. `AllocatorRun.run_preserves_contents` says what a reallocation, a zeroed
allocation and a request with too large an alignment come to after any run.
-/

namespace PaeKernel

/-- A pointer handed out and the layout it was asked for with. -/
structure Grant where
  pointer : Nat
  layout : Layout
  deriving DecidableEq

/-- The grant as the heap knows it. -/
def Grant.allocation (g : Grant) : Allocation := ⟨g.pointer, g.layout.size⟩

/-- An arena and the grants not yet taken back. -/
structure AllocatorRun where
  arena : Arena
  live : List Grant

/-- One call of the allocator or one byte that a client writes. -/
inductive AllocatorCall where
  | alloc (layout : Layout)
  | allocZeroed (layout : Layout)
  | dealloc (pointer : Nat)
  | realloc (pointer newSize : Nat)
  | write (address : Nat) (byte : UInt8)
  deriving DecidableEq

namespace AllocatorRun

/-- An arena before the first call. -/
def start (a : Arena) : AllocatorRun := ⟨a, []⟩

/-- The run after a request with a layout, which leaves the grants `left` live if it is granted. -/
def answered (r : AllocatorRun) (layout : Layout) (left : List Grant) :
    Except Panic (Option Nat) × Arena → Except Panic AllocatorRun
  | (.ok (some pointer), a) => .ok ⟨a, ⟨pointer, layout⟩ :: left⟩
  | (.ok none, a) => .ok ⟨a, r.live⟩
  | (.error e, _) => .error e

/-- Carries out one call. Clients pass live pointers and valid sizes, and they write into payloads of
blocks in use; nothing happens otherwise. -/
def step (r : AllocatorRun) : AllocatorCall → Except Panic AllocatorRun
  | .alloc layout => r.answered layout r.live (Arena.alloc layout r.arena)
  | .allocZeroed layout => r.answered layout r.live (Arena.allocZeroed layout r.arena)
  | .dealloc pointer =>
    if r.live.any (·.pointer == pointer) then
      match Arena.dealloc pointer r.arena with
      | (.ok (), a) => .ok ⟨a, r.live.filter (·.pointer != pointer)⟩
      | (.error e, _) => .error e
    else .ok r
  | .realloc pointer newSize =>
    match r.live.find? (·.pointer == pointer) with
    | none => .ok r
    | some g =>
      match Layout.make? newSize g.layout.align with
      | none => .ok r
      | some layout =>
        r.answered layout (r.live.filter (·.pointer != pointer))
          (Arena.realloc pointer g.layout newSize r.arena)
  | .write address byte =>
    if r.arena.payloads.any (·.Holds address) then
      .ok ⟨{ r.arena with memory := r.arena.memory.writeByte address byte }, r.live⟩
    else .ok r

/-- Carries out calls one after another. -/
def run (r : AllocatorRun) (calls : List AllocatorCall) : Except Panic AllocatorRun :=
  calls.foldlM step r

/-- The run of the heap in which the layouts are forgotten. -/
def heapRun (r : AllocatorRun) : HeapRun := ⟨r.arena, r.live.map Grant.allocation⟩

variable {r r' : AllocatorRun} {cells : List (List Cell)} {a : Arena} {g : Grant} {layout : Layout}
  {left : List Grant} {Contents : Nat → Memory → Prop} {out : Except Panic (Option Nat) × Arena}

/-! ### One call -/

/-- The live grants are what the heap has in use, and the heap can align them. -/
structure Lent (r : AllocatorRun) (cells : List (List Cell)) : Prop where
  tracked : r.heapRun.Tracked cells
  supported : ∀ g ∈ r.live, g.layout.align ≤ unitSize

/-- A request was granted: the pointer is aligned, the grants `left` stay live with the bytes in them,
and nothing is wrong with the heap. -/
structure Obtained (r r' : AllocatorRun) (layout : Layout) (left : List Grant) (pointer : Nat) :
    Prop where
  live : r'.live = ⟨pointer, layout⟩ :: left
  aligned : pointer % layout.align = 0
  keeps : r.heapRun.Keeps r'.heapRun
  isolated : r'.heapRun.Isolated
  audit : r'.arena.audit = .ok (.ok ())

theorem Obtained.pointer_not_live {fresh : Nat}
    (h : r.Obtained r' layout (r.live.filter (·.pointer != g.pointer)) fresh)
    (hfresh : fresh ≠ g.pointer) : ∀ other ∈ r'.live, other.pointer ≠ g.pointer := by
  intro other hother
  rw [h.live] at hother
  rcases List.mem_cons.1 hother with rfl | hother
  · exact hfresh
  · exact bne_iff_ne.1 (List.mem_filter.1 hother).2

namespace Lent

theorem eq_of_pointer (h : r.Lent cells) {g' : Grant} (hg : g ∈ r.live) (hg' : g' ∈ r.live)
    (heq : g'.pointer = g.pointer) : g' = g := by
  have hnodup := h.tracked.nodup
  rw [heapRun, List.map_map] at hnodup
  exact List.inj_on_of_nodup_map hnodup hg' hg heq

theorem start_ne (h : r.Lent cells) {pointer : Nat} (hgone : ∀ g ∈ r.live, g.pointer ≠ pointer) :
    ∀ q ∈ r.arena.payloads, q.start ≠ pointer := by
  intro q hq heq
  obtain ⟨x, hx, hstart⟩ := h.tracked.exists_live hq
  obtain ⟨g, hg, rfl⟩ := List.mem_map.1 hx
  exact hgone g hg (hstart.trans heq)

theorem find_live (h : r.Lent cells) (hg : g ∈ r.live) :
    r.live.find? (·.pointer == g.pointer) = some g := by
  cases hfind : r.live.find? (·.pointer == g.pointer) with
  | none => exact absurd (beq_self_eq_true _) (List.find?_eq_none.1 hfind g hg)
  | some g' =>
    have hpointer := List.find?_some hfind
    simp only [beq_iff_eq] at hpointer
    rw [h.eq_of_pointer hg (List.mem_of_find?_eq_some hfind) hpointer]

theorem filter_live (r : AllocatorRun) (pointer : Nat) :
    (r.live.filter (·.pointer != pointer)).map Grant.allocation
      = r.heapRun.live.filter (·.pointer != pointer) := by
  rw [heapRun, List.filter_map]
  rfl

/-- What a request comes to as a step of the run. -/
theorem answered_cases (h : r.Lent cells) (hleft : ∀ g ∈ left, g ∈ r.live)
    (hanswer : r.heapRun.Answer layout.size layout.align (left.map Grant.allocation) Contents out) :
    (∃ log, out = (.ok none, { r.arena with log })
      ∧ r.answered layout left out = .ok ⟨{ r.arena with log }, r.live⟩
      ∧ Lent ⟨{ r.arena with log }, r.live⟩ cells)
    ∨ ∃ pointer r' cells', out = (.ok (some pointer), r'.arena)
      ∧ r.answered layout left out = .ok r' ∧ r'.Lent cells'
      ∧ r.Obtained r' layout left pointer ∧ Contents pointer r'.arena.memory := by
  cases hanswer with
  | refused log => exact .inl ⟨log, rfl, rfl, h.tracked.logged log, h.supported⟩
  | granted pointer a cells' hsupported htracked hkeeps _ hcontents =>
    refine .inr ⟨pointer, ⟨a, ⟨pointer, layout⟩ :: left⟩, cells', rfl, rfl, ⟨htracked, ?_⟩,
      ⟨rfl, ?_, hkeeps, htracked.isolated, Arena.audit_of_sound htracked.sound⟩, hcontents⟩
    · intro g hg
      rcases List.mem_cons.1 hg with rfl | hg
      · exact hsupported
      · exact h.supported g (hleft g hg)
    · obtain ⟨_, _, q, _, hstart, haligned, -⟩ := htracked.isolated.placed _ List.mem_cons_self
      rw [hstart] at haligned
      exact Nat.mod_eq_zero_of_dvd
        (Nat.dvd_trans (layout.align_dvd_unitSize hsupported) (Nat.dvd_of_mod_eq_zero haligned))

theorem answer_realloc (h : r.Lent cells) (hg : g ∈ r.live) {newSize : Nat}
    (hlayout : Layout.make? newSize g.layout.align = some layout) :
    r.heapRun.Answer layout.size layout.align
      ((r.live.filter (·.pointer != g.pointer)).map Grant.allocation)
      (fun fresh m => fresh ≠ g.pointer ∧ m.readBytes fresh (min g.layout.size newSize)
        = r.arena.memory.readBytes g.pointer (min g.layout.size newSize))
      (Arena.realloc g.pointer g.layout newSize r.arena) := by
  have hanswer := h.tracked.answer_realloc (List.mem_map_of_mem hg) g.layout rfl newSize
  obtain ⟨hsize, halign⟩ : layout.size = newSize ∧ layout.align = g.layout.align := by
    rw [Layout.make?] at hlayout
    split at hlayout
    · cases hlayout
      exact ⟨rfl, rfl⟩
    · cases hlayout
  rw [filter_live, hsize, halign]
  exact hanswer

theorem step_realloc (h : r.Lent cells) (hg : g ∈ r.live) {newSize : Nat}
    (hlayout : Layout.make? newSize g.layout.align = some layout) :
    r.step (.realloc g.pointer newSize) = r.answered layout (r.live.filter (·.pointer != g.pointer))
      (Arena.realloc g.pointer g.layout newSize r.arena) := by
  simp only [step, h.find_live hg, hlayout]

/-- Every call keeps the grants and the heap in step. -/
theorem step_lent (h : r.Lent cells) (call : AllocatorCall) :
    ∃ r', r.step call = .ok r' ∧ ∃ cells', r'.Lent cells' := by
  -- of a request it is enough to know what it can come to
  have hrequest : ∀ {layout left Contents out}, (∀ g ∈ left, g ∈ r.live) →
      r.heapRun.Answer layout.size layout.align (left.map Grant.allocation) Contents out →
      ∃ r', r.answered layout left out = .ok r' ∧ ∃ cells', r'.Lent cells' := by
    intro layout left Contents out hleft hanswer
    rcases h.answered_cases hleft hanswer with
      ⟨log, -, hstep, hlent⟩ | ⟨pointer, r', cells', -, hstep, hlent, -⟩
    · exact ⟨_, hstep, cells, hlent⟩
    · exact ⟨r', hstep, cells', hlent⟩
  cases call with
  | alloc layout => exact hrequest (fun _ hg => hg) (h.tracked.answer_alloc layout.size layout.align)
  | allocZeroed layout => exact hrequest (fun _ hg => hg) (h.tracked.answer_allocZeroed layout)
  | dealloc pointer =>
    rw [step]
    split
    · rename_i hany
      obtain ⟨g, hg, hpointer⟩ := List.any_eq_true.1 hany
      obtain rfl := eq_of_beq hpointer
      obtain ⟨a, cells', hrun, htracked, -⟩ := h.tracked.dealloc_live (List.mem_map_of_mem hg)
      change Arena.dealloc g.pointer r.arena = _ at hrun
      rw [hrun]
      refine ⟨_, rfl, cells', ?_, fun g hg => h.supported g (List.mem_filter.1 hg).1⟩
      rw [heapRun, filter_live]
      exact htracked
    · exact ⟨r, rfl, cells, h⟩
  | realloc pointer newSize =>
    cases hfind : r.live.find? (·.pointer == pointer) with
    | none => exact ⟨r, by simp only [step, hfind], cells, h⟩
    | some g =>
      have hg := List.mem_of_find?_eq_some hfind
      obtain rfl : g.pointer = pointer := by simpa only [beq_iff_eq] using List.find?_some hfind
      cases hlayout : Layout.make? newSize g.layout.align with
      | none => exact ⟨r, by simp only [step, hfind, hlayout], cells, h⟩
      | some layout =>
        rw [h.step_realloc hg hlayout]
        exact hrequest (fun _ hg => (List.mem_filter.1 hg).1) (h.answer_realloc hg hlayout)
  | write address byte =>
    rw [step]
    split
    · rename_i hany
      obtain ⟨q, hq, hholds⟩ := List.any_eq_true.1 hany
      have hsame := r.arena.memory.sameOutside_writeByte (of_decide_eq_true hholds) byte
      exact ⟨_, rfl, cells, h.tracked.client hq hsame, h.supported⟩
    · exact ⟨r, rfl, cells, h⟩

end Lent

/-! ### Whole runs -/

theorem run_lent (h : r.Lent cells) (calls : List AllocatorCall) :
    ∃ r', r.run calls = .ok r' ∧ ∃ cells', r'.Lent cells' := by
  refine exists_foldlM_eq_ok (P := fun s : AllocatorRun => ∃ cells, s.Lent cells) ?_ ⟨cells, h⟩ calls
  rintro r ⟨cells, hlent⟩ call
  exact hlent.step_lent call

theorem lent_of_setUp (h : a.SetUp) : (start a).Lent (Arena.whole a.heap.spaces) where
  tracked := HeapRun.tracked_of_setUp h
  supported := fun _ hg => nomatch hg

/-- After any run of a heap just set up:

* a reallocation of a live pointer is refused and changes nothing but the log, or it is granted, the
  new payload begins with the bytes of the old one, the old one is in use no more and all other
  payloads keep their bytes;
* a zeroed allocation that is granted begins with zero bytes;
* a request with an alignment larger than a unit is refused and changes nothing but the log. -/
theorem run_preserves_contents (h : a.SetUp) (calls : List AllocatorCall) :
    ∃ r, (start a).run calls = .ok r ∧ r.heapRun.Isolated
    ∧ (∀ g ∈ r.live, ∀ newSize layout, Layout.make? newSize g.layout.align = some layout →
      (∃ log, Arena.realloc g.pointer g.layout newSize r.arena = (.ok none, { r.arena with log })
        ∧ r.step (.realloc g.pointer newSize) = .ok ⟨{ r.arena with log }, r.live⟩)
      ∨ ∃ fresh r', Arena.realloc g.pointer g.layout newSize r.arena = (.ok (some fresh), r'.arena)
        ∧ r.step (.realloc g.pointer newSize) = .ok r'
        ∧ r.Obtained r' layout (r.live.filter (·.pointer != g.pointer)) fresh
        ∧ r'.arena.memory.readBytes fresh (min g.layout.size newSize)
          = r.arena.memory.readBytes g.pointer (min g.layout.size newSize)
        ∧ ∀ q ∈ r'.arena.payloads, q.start ≠ g.pointer)
    ∧ (∀ layout, (∃ log, Arena.allocZeroed layout r.arena = (.ok none, { r.arena with log }))
      ∨ ∃ fresh r', Arena.allocZeroed layout r.arena = (.ok (some fresh), r'.arena)
        ∧ r.Obtained r' layout r.live fresh
        ∧ r'.arena.memory.readBytes fresh layout.size = List.replicate layout.size 0)
    ∧ ∀ layout, unitSize < layout.align →
      (∃ log, Arena.alloc layout r.arena = (.ok none, { r.arena with log }))
      ∧ (∃ log, Arena.allocZeroed layout r.arena = (.ok none, { r.arena with log }))
      ∧ ∀ pointer newSize, ∃ log,
        Arena.realloc pointer layout newSize r.arena = (.ok none, { r.arena with log }) := by
  obtain ⟨r, hrun, cells, hlent⟩ := run_lent (lent_of_setUp h) calls
  refine ⟨r, hrun, hlent.tracked.isolated, ?_, ?_, fun layout hlt => Arena.refused_of_lt hlt r.arena⟩
  · intro g hg newSize layout hlayout
    rw [hlent.step_realloc hg hlayout]
    rcases hlent.answered_cases (fun _ hg => (List.mem_filter.1 hg).1)
        (hlent.answer_realloc hg hlayout) with
      ⟨log, hout, hstep, -⟩ | ⟨fresh, r', cells', hout, hstep, hlent', hobtained, hfresh,
        hcontents⟩
    · exact .inl ⟨log, hout, hstep⟩
    · refine .inr ⟨fresh, r', hout, hstep, hobtained, hcontents, ?_⟩
      exact hlent'.start_ne (hobtained.pointer_not_live hfresh)
  · intro layout
    rcases hlent.answered_cases (fun _ hg => hg) (hlent.tracked.answer_allocZeroed layout) with
      ⟨log, hout, -⟩ | ⟨fresh, r', cells', hout, -, -, hobtained, hcontents⟩
    · exact .inl ⟨log, hout⟩
    · exact .inr ⟨fresh, r', hout, hobtained, hcontents⟩

/-- Five bytes that do not fit where they are once they are twenty, with a neighbour in between. -/
theorem run_preserves_contents_sample : ∃ r,
    (start Arena.sample).run [.alloc ⟨5, 4, by decide, by decide⟩,
      .alloc ⟨1, 1, by decide, by decide⟩, .write 0x1020 7] = .ok r
    ∧ ∃ r' : AllocatorRun, Arena.realloc 0x1020 ⟨5, 4, by decide, by decide⟩ 20 r.arena
        = (.ok (some 0x1050), r'.arena)
      ∧ r'.arena.memory.readBytes 0x1050 5 = r.arena.memory.readBytes 0x1020 5
      ∧ r'.arena.audit = .ok (.ok ()) := by
  obtain ⟨r, hrun, -, hrealloc, -⟩ := run_preserves_contents Arena.setUp_sample
    [.alloc ⟨5, 4, by decide, by decide⟩, .alloc ⟨1, 1, by decide, by decide⟩, .write 0x1020 7]
  have hrun' : ((start Arena.sample).run [.alloc ⟨5, 4, by decide, by decide⟩,
      .alloc ⟨1, 1, by decide, by decide⟩, .write 0x1020 7]).map (fun r => (r.live,
        (Arena.realloc 0x1020 ⟨5, 4, by decide, by decide⟩ 20 r.arena).1))
      = .ok ([⟨0x1038, 1, 1, by decide, by decide⟩, ⟨0x1020, 5, 4, by decide, by decide⟩],
        .ok (some 0x1050)) := by
    decide +kernel
  rw [hrun] at hrun'
  obtain ⟨hlive, hfresh⟩ := Prod.mk.inj (Except.ok.inj hrun')
  have hg : ⟨0x1020, 5, 4, by decide, by decide⟩ ∈ r.live := by rw [hlive]; decide
  refine ⟨r, hrun, ?_⟩
  rcases hrealloc _ hg 20 ⟨20, 4, by decide, by decide⟩ (by decide) with
    ⟨log, hnone, -⟩ | ⟨fresh, r', hsome, -, hobtained, hcontents, -⟩
  · rw [hnone] at hfresh
    cases hfresh
  · rw [hsome] at hfresh
    obtain rfl := Option.some.inj (Except.ok.inj hfresh)
    exact ⟨r', hsome, hcontents, hobtained.audit⟩

end AllocatorRun

end PaeKernel
