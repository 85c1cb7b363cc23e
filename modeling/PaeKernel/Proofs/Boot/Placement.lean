import Mathlib.Data.List.Nodup
import PaeKernel.Boot.Placement
import PaeKernel.Proofs.Boot.Grammar
import PaeKernel.Proofs.Heap.Setup
import PaeKernel.Proofs.Paging.Drafts

/-!
# What boot placement yields

For every memory map and every end of the kernel image, placement refuses or finds whole pages for
the heap and for table frames in the region that holds the end of the image (`MemoryMap.Placed`). The
frame source made of the table frames then hands out each of them once (`BootMemory.Supplies`), and
the heap that is set up is one free block (`Arena.Fills`). `MemoryMap.bootMemory_provides` puts this
together.
-/

namespace PaeKernel

namespace AddressRange

/-- The number of whole pages in a range. -/
def pages (r : AddressRange) : Nat := (r.stop - r.start) / pageSize

instance : Membership Nat AddressRange := ⟨fun r a => r.start ≤ a ∧ a < r.stop⟩

theorem mem_iff {r : AddressRange} {a : Nat} : a ∈ r ↔ r.start ≤ a ∧ a < r.stop := Iff.rfl

/-- One of the ranges ends before the other starts. -/
def Apart (r r' : AddressRange) : Prop := r.stop ≤ r'.start ∨ r'.stop ≤ r.start

theorem Apart.not_mem {r r' : AddressRange} {a : Nat} (h : r.Apart r') (ha : a ∈ r) : a ∉ r' := by
  intro ha'
  rw [mem_iff] at ha ha'
  rcases h with h | h <;> omega

/-- The page of a frame. -/
def ofFrame (f : PhysicalAddress) : AddressRange := ⟨f.toNat, f.toNat + pageSize⟩

end AddressRange

/-- The heap and the table frames in one. -/
def BootMemory.span (boot : BootMemory) : AddressRange := ⟨boot.heap.start, boot.tables.stop⟩

namespace MemoryMap

variable {map : MemoryMap} {kernelEnd : Nat} {region : Region} {boot : BootMemory}

/-! ### The range behind the kernel image -/

theorem heapRegion_of_none
    (h : map.regions.find? (fun r => r.usable && r.contains kernelEnd) = none) (limit : Nat) :
    map.heapRegion kernelEnd limit = .ok (.error (.noHeapRegion kernelEnd)) := by
  rw [heapRegion, h]

theorem heapRegion_of_some
    (h : map.regions.find? (fun r => r.usable && r.contains kernelEnd) = some region)
    (hend : kernelEnd + pageSize < wordLimit) (limit : Nat) :
    map.heapRegion kernelEnd limit = .ok
      (if min region.stop limit / 4096 * 4096 ≤ (kernelEnd + 4095) / 4096 * 4096 then
        .error (.noHeapRegion kernelEnd)
      else .ok ⟨(kernelEnd + 4095) / 4096 * 4096, min region.stop limit / 4096 * 4096⟩) := by
  have hstop : min region.stop limit < wordLimit := by
    have hle : region.stop ≤ wordLimit - 1 := Nat.min_le_right _ _
    have hpos : 0 < wordLimit := by decide
    omega
  rw [heapRegion, h]
  dsimp only
  rw [alignUp_pageSize hend, alignDown_pageSize hstop]
  rfl

theorem heapRegion_of_overflow
    (h : map.regions.find? (fun r => r.usable && r.contains kernelEnd) = some region)
    (hend : wordLimit ≤ kernelEnd + pageSize) (limit : Nat) :
    map.heapRegion kernelEnd limit = .error .addOverflow := by
  rw [heapRegion, h]
  dsimp only
  rw [alignUp_of_ge hend]
  rfl

/-- Where the heap and the table frames lie: whole pages, one after the other, from the first page
after the image on and in the region that the image ends in. The tables have as many pages as are
wanted, or the smaller half. -/
structure Placed (map : MemoryMap) (kernelEnd : Nat) (boot : BootMemory) : Prop where
  aligned : boot.heap.start % pageSize = 0 ∧ boot.heap.stop % pageSize = 0
    ∧ boot.tables.start % pageSize = 0 ∧ boot.tables.stop % pageSize = 0
  adjacent : boot.heap.stop = boot.tables.start
  first : kernelEnd ≤ boot.heap.start
    ∧ ∀ b, b % pageSize = 0 → kernelEnd ≤ b → boot.heap.start ≤ b
  limit : boot.tables.stop ≤ identityLimit
  region : ∃ r ∈ map.regions, r.usable = true ∧ r.contains kernelEnd = true
    ∧ r.base ≤ boot.heap.start ∧ boot.tables.stop ≤ r.stop
  table_pages : boot.tables.pages = min tableFrames (boot.span.pages / 2)
  heap_pages : 1 ≤ boot.heap.pages ∧ boot.tables.pages ≤ boot.heap.pages
  whole : boot.heap.start + boot.heap.pages * pageSize = boot.heap.stop
    ∧ boot.tables.start + boot.tables.pages * pageSize = boot.tables.stop

theorem splitTableFrames_pages {i j : Nat} (frames : Nat) :
    splitTableFrames ⟨i * 4096, j * 4096⟩ frames
      = (⟨i * 4096, (j - min frames ((j - i) / 2)) * 4096⟩,
        ⟨(j - min frames ((j - i) / 2)) * 4096, j * 4096⟩) := by
  have hpages : (j * 4096 - i * 4096) / 4096 = j - i := by
    rw [← Nat.sub_mul, Nat.mul_div_cancel _ (by decide)]
  rw [splitTableFrames, pageSize]
  dsimp only
  rw [hpages, Nat.sub_mul]

theorem placed_of_region
    (h : map.regions.find? (fun r => r.usable && r.contains kernelEnd) = some region)
    (hne : (kernelEnd + 4095) / 4096 * 4096 < min region.stop identityLimit / 4096 * 4096) :
    map.Placed kernelEnd
      ⟨(splitTableFrames ⟨(kernelEnd + 4095) / 4096 * 4096,
          min region.stop identityLimit / 4096 * 4096⟩ tableFrames).1,
        (splitTableFrames ⟨(kernelEnd + 4095) / 4096 * 4096,
          min region.stop identityLimit / 4096 * 4096⟩ tableFrames).2⟩ := by
  have hfound := List.find?_some h
  rw [Bool.and_eq_true] at hfound
  have hbase : region.base ≤ kernelEnd := by
    have hin := hfound.2
    rw [Region.contains, Bool.and_eq_true, decide_eq_true_eq] at hin
    exact hin.1
  have hfirst := pageUp_least kernelEnd
  have hlast : min region.stop identityLimit / 4096 * 4096 ≤ min region.stop identityLimit :=
    Nat.div_mul_le_self _ _
  have hlimit := Nat.le_trans hlast (Nat.min_le_right _ _)
  have hregion := Nat.le_trans hlast (Nat.min_le_left _ _)
  clear hlast
  -- in pages: the image ends before page `i`, and the range ends before page `j`
  generalize (kernelEnd + 4095) / 4096 = i at *
  generalize min region.stop identityLimit / 4096 = j at *
  have hij := Nat.lt_of_mul_lt_mul_right hne
  have hcut : min tableFrames ((j - i) / 2) ≤ (j - i) / 2 := Nat.min_le_right _ _
  rw [splitTableFrames_pages]
  generalize hk : min tableFrames ((j - i) / 2) = k at *
  refine ⟨⟨Nat.mul_mod_left _ _, Nat.mul_mod_left _ _, Nat.mul_mod_left _ _, Nat.mul_mod_left _ _⟩,
    rfl, hfirst, hlimit, ⟨region, List.mem_of_find?_eq_some h, hfound.1, hfound.2,
    Nat.le_trans hbase hfirst.1, hregion⟩, ?_, ?_, ?_⟩
  · simp only [AddressRange.pages, BootMemory.span, pageSize, ← Nat.sub_mul]
    omega
  · simp only [AddressRange.pages, pageSize, ← Nat.sub_mul]
    omega
  · simp only [AddressRange.pages, pageSize, ← Nat.sub_mul]
    omega

/-- The first free region that holds the end of the image, if there is one, has no whole page behind
the image and below the identity limit. -/
def NoRoom (map : MemoryMap) (kernelEnd : Nat) : Prop :=
  ∀ region, map.regions.find? (fun r => r.usable && r.contains kernelEnd) = some region →
    ∀ page, page % pageSize = 0 → kernelEnd ≤ page →
      min region.stop identityLimit < page + pageSize

theorem noRoom_of_le
    (h : map.regions.find? (fun r => r.usable && r.contains kernelEnd) = some region)
    (hle : min region.stop identityLimit / 4096 * 4096 ≤ (kernelEnd + 4095) / 4096 * 4096) :
    map.NoRoom kernelEnd := by
  intro region' h' page hpage hend
  rw [h] at h'
  obtain rfl := Option.some.inj h'
  have hbelow := Nat.le_trans hle ((pageUp_least kernelEnd).2 page hpage hend)
  have hnext : min region.stop identityLimit < min region.stop identityLimit / 4096 * 4096 + 4096 :=
    Nat.lt_div_mul_add (by decide)
  exact Nat.lt_of_lt_of_le hnext (Nat.add_le_add_right hbelow 4096)

/-- Placement refuses or finds room; it overflows only where the image ends at the very top. -/
theorem place_cases (map : MemoryMap) (kernelEnd : Nat) :
    (map.place kernelEnd = .error .addOverflow ∧ wordLimit ≤ kernelEnd + pageSize)
    ∨ map.place kernelEnd = .ok (.error (.noHeapRegion kernelEnd)) ∧ map.NoRoom kernelEnd
    ∨ ∃ boot, map.place kernelEnd = .ok (.ok boot) ∧ map.Placed kernelEnd boot := by
  cases h : map.regions.find? (fun r => r.usable && r.contains kernelEnd) with
  | none =>
    refine .inr (.inl ⟨?_, fun region hregion => ?_⟩)
    · rw [place, heapRegion_of_none h]
      rfl
    · rw [h] at hregion
      cases hregion
  | some region =>
    by_cases hend : kernelEnd + pageSize < wordLimit
    · refine .inr ?_
      rw [place, heapRegion_of_some h hend]
      by_cases hle : min region.stop identityLimit / 4096 * 4096 ≤ (kernelEnd + 4095) / 4096 * 4096
      · rw [if_pos hle]
        exact .inl ⟨rfl, noRoom_of_le h hle⟩
      · rw [if_neg hle]
        exact .inr ⟨_, rfl, placed_of_region h (Nat.lt_of_not_le hle)⟩
    · refine .inl ⟨?_, Nat.le_of_not_lt hend⟩
      rw [place, heapRegion_of_overflow h (Nat.le_of_not_lt hend)]
      rfl

end MemoryMap

/-- Boot says what placement says. -/
theorem Arena.bootMemory_fst (map : MemoryMap) (kernelEnd : Nat) (a : Arena) :
    (Arena.bootMemory map kernelEnd a).1 = map.place kernelEnd := by
  rw [bootMemory]
  cases h : map.place kernelEnd with
  | error e => rw [Exec.bind_of_error (Exec.check_apply _ _)]
  | ok answer =>
    rw [Exec.bind_of_ok (Exec.check_apply _ _)]
    cases answer with
    | error err => rfl
    | ok boot => rfl

theorem MemoryMap.placed_of_bootMemory {map : MemoryMap} {kernelEnd : Nat} {boot : BootMemory}
    {a : Arena} (h : (Arena.bootMemory map kernelEnd a).1 = .ok (.ok boot)) :
    map.Placed kernelEnd boot := by
  rw [Arena.bootMemory_fst] at h
  rcases map.place_cases kernelEnd with ⟨hover, -⟩ | ⟨hnone, -⟩ | ⟨boot', hboot', hplaced⟩
  · rw [hover] at h
    cases h
  · rw [hnone] at h
    cases h
  · rw [hboot'] at h
    cases h
    exact hplaced

/-! ### The frames for tables -/

namespace FrameSource

/-- Asks for so many frames, one after another. -/
def handOut : Nat → Exec FrameSource (List (Option PhysicalAddress))
  | 0 => return []
  | n + 1 => do
    let frame ← alloc
    return frame :: (← handOut n)

/-- A source hands out what is pending, in order, and then nothing. -/
theorem handOut_eq {s : FrameSource} (hstop : s.stop < wordLimit) (hs : s.Steady)
    (hframe : ∀ f ∈ s.pending, f.IsFrame) (n : Nat) :
    ∃ s', handOut n s = (.ok ((List.range n).map fun i => s.pending[i]?), s') := by
  -- a source that may overflow once would stop the run there; a steady one stays steady
  induction n generalizing s with
  | zero => exact ⟨s, rfl⟩
  | succ n ih =>
    rw [handOut, List.range_succ_eq_map, List.map_cons, List.map_map]
    rcases alloc_cases hstop hframe with
      ⟨f, s₁, hrun, hcons, hstop₁, hsteady⟩ | ⟨hnil, -, hrun⟩ | ⟨-, hunsteady, -⟩
    · obtain ⟨s₂, hrest⟩ := ih (hstop₁ ▸ hstop) (hsteady.2 hs)
        fun g hg => hframe g (hcons ▸ List.mem_cons_of_mem _ hg)
      refine ⟨s₂, ?_⟩
      rw [Exec.bind_of_ok hrun, Exec.bind_of_ok hrest, hcons]
      rfl
    · obtain ⟨s₂, hrest⟩ := ih hstop hs hframe
      refine ⟨s₂, ?_⟩
      rw [Exec.bind_of_ok hrun, Exec.bind_of_ok hrest, hnil]
      rfl
    · exact absurd hs hunsteady

theorem mem_pending {s : FrameSource} {f : PhysicalAddress} :
    f ∈ s.pending ↔ f ∈ s.reserved
      ∨ ∃ i < (s.stop - s.next) / pageSize, f = .ofNat (s.next + i * pageSize) := by
  simp only [pending, List.mem_append, List.mem_map, List.mem_range, eq_comm]

end FrameSource

namespace BootMemory

/-- The frames that boot memory leaves for tables made by page faults. -/
def source (boot : BootMemory) : FrameSource :=
  ⟨TableLayout.boot.spareFrames, boot.tables.start, boot.tables.stop⟩

/-- A source hands out these frames, once each and then none, and their pages are in no other use:
not by the heap, not by the kernel image and not by the first tables. -/
structure Supplies (boot : BootMemory) (kernelEnd : Nat) (source : FrameSource)
    (frames : List PhysicalAddress) : Prop where
  count : frames.length = 2 + min tableFrames (boot.span.pages / 2)
  remaining : source.remaining = frames.length
  handed : ∀ n, ∃ s', source.handOut n = (.ok ((List.range n).map fun i => frames[i]?), s')
  distinct : frames.Nodup
  heap : ∀ f ∈ frames, (AddressRange.ofFrame f).Apart boot.heap
  image : ∀ f ∈ frames, (AddressRange.ofFrame f).Apart ⟨loadAddress, kernelEnd⟩
  first : ∀ f ∈ frames, ∀ g ∈ [TableLayout.boot.root, TableLayout.boot.directory,
    TableLayout.boot.table], (AddressRange.ofFrame f).Apart (.ofFrame g)

end BootMemory

namespace MemoryMap.Placed

variable {map : MemoryMap} {kernelEnd : Nat} {boot : BootMemory} {f : PhysicalAddress}

theorem heap_lt (h : map.Placed kernelEnd boot) : boot.heap.start < boot.heap.stop := by
  have hpage := h.heap_pages.1
  simp only [AddressRange.pages, pageSize] at hpage
  omega

theorem tables_le (h : map.Placed kernelEnd boot) :
    boot.tables.start ≤ boot.tables.stop ∧ boot.tables.stop ≤ 0x200000 :=
  ⟨h.whole.2 ▸ Nat.le_add_right _ _, h.limit⟩

theorem heap_lt_limit (h : map.Placed kernelEnd boot) {x : Nat} (hx : x ∈ boot.heap) :
    x < identityLimit := by
  have hle := h.tables_le.1
  rw [← h.adjacent] at hle
  exact Nat.lt_of_lt_of_le hx.2 (Nat.le_trans hle h.limit)

theorem aligned_tables (h : map.Placed kernelEnd boot) :
    boot.tables.start % 4096 = 0 ∧ boot.tables.stop % 4096 = 0 := h.aligned.2.2

theorem bump_eq (h : map.Placed kernelEnd boot) : FrameSource.bump TableLayout.boot.spareFrames
    boot.tables.start boot.tables.stop = .ok boot.source := by
  obtain ⟨hle, hlimit⟩ := h.tables_le
  obtain ⟨hstart, hstop⟩ := h.aligned_tables
  have hword : boot.tables.start + 4096 < wordLimit ∧ boot.tables.stop < wordLimit := by
    simp only [wordLimit]
    omega
  rw [FrameSource.bump, alignUp_of_aligned hstart hword.1, alignDown_of_aligned hstop hword.2]
  show Except.ok (FrameSource.mk _ _ (max _ _)) = _
  rw [Nat.max_eq_left hle]
  rfl

/-- The frames are the two spare pages and the pages of the table range. -/
theorem mem_source (h : map.Placed kernelEnd boot) : f ∈ boot.source.pending
    ↔ f = TableLayout.boot.spare1 ∨ f = TableLayout.boot.spare2
      ∨ boot.tables.start ≤ f.toNat ∧ f.toNat < boot.tables.stop ∧ f.toNat % 4096 = 0 := by
  obtain ⟨hle, hlimit⟩ := h.tables_le
  obtain ⟨hstart, hstop⟩ := h.aligned_tables
  have hreserved : f ∈ boot.source.reserved
      ↔ f = TableLayout.boot.spare1 ∨ f = TableLayout.boot.spare2 := by
    simp only [BootMemory.source, TableLayout.spareFrames, List.mem_cons, List.not_mem_nil, or_false]
  have hrange : (∃ i < (boot.tables.stop - boot.tables.start) / pageSize,
      f = .ofNat (boot.tables.start + i * pageSize))
      ↔ boot.tables.start ≤ f.toNat ∧ f.toNat < boot.tables.stop ∧ f.toNat % 4096 = 0 := by
    simp only [pageSize, PhysicalAddress.ext_iff, PhysicalAddress.toNat_ofNat, wordLimit]
    constructor
    · rintro ⟨i, hi, hf⟩
      omega
    · intro hf
      exact ⟨(f.toNat - boot.tables.start) / 4096, by omega, by omega⟩
  rw [FrameSource.mem_pending, hreserved, or_assoc]
  exact or_congr_right (or_congr_right hrange)

theorem isFrame_of_mem (h : map.Placed kernelEnd boot) (hf : f ∈ boot.source.pending) :
    f.IsFrame := by
  obtain ⟨hle, hlimit⟩ := h.tables_le
  rcases h.mem_source.1 hf with rfl | rfl | ⟨-, hlt, haligned⟩
  · decide
  · decide
  · refine ⟨beq_iff_eq.2 haligned, ?_⟩
    simp only [frameLimit]
    omega

theorem nodup_source (h : map.Placed kernelEnd boot) (hload : loadAddress ≤ kernelEnd) :
    boot.source.pending.Nodup := by
  obtain ⟨hle, hlimit⟩ := h.tables_le
  have hfirst := h.first.1
  have hheap := h.heap_lt
  have hadjacent := h.adjacent
  simp only [loadAddress] at hload
  have hspare : TableLayout.boot.spareFrames.Nodup := by decide
  -- the spare pages lie below the image and the range above it
  refine List.nodup_append.2 ⟨hspare, ?_, ?_⟩
  · refine List.Nodup.map_on ?_ List.nodup_range
    intro i hi j hj heq
    simp only [BootMemory.source, List.mem_range, pageSize, PhysicalAddress.ext_iff,
      PhysicalAddress.toNat_ofNat, wordLimit] at hi hj heq
    omega
  · intro f hf g hg
    simp only [BootMemory.source, TableLayout.spareFrames, TableLayout.boot, sparePage1, sparePage2,
      List.mem_cons, List.not_mem_nil, or_false] at hf
    simp only [BootMemory.source, List.mem_map, List.mem_range, pageSize] at hg
    obtain ⟨i, hi, rfl⟩ := hg
    rcases hf with rfl | rfl <;>
      simp only [ne_eq, PhysicalAddress.ext_iff, PhysicalAddress.toNat_ofNat, wordLimit] <;> omega

/-- The pages of frames for tables meet nothing that leaves out the spare pages and the range. -/
theorem apart_of_mem (h : map.Placed kernelEnd boot) (hf : f ∈ boot.source.pending)
    {r : AddressRange} (hspare : r.stop ≤ sparePage1 ∨ sparePage2 + pageSize ≤ r.start)
    (htables : r.stop ≤ boot.tables.start) : (AddressRange.ofFrame f).Apart r := by
  simp only [sparePage1, sparePage2, pageSize] at hspare
  rcases h.mem_source.1 hf with rfl | rfl | ⟨hge, -⟩
  · have hpage : TableLayout.boot.spare1.toNat = 0x4000 := rfl
    simp only [AddressRange.Apart, AddressRange.ofFrame, pageSize, hpage]
    omega
  · have hpage : TableLayout.boot.spare2.toNat = 0x5000 := rfl
    simp only [AddressRange.Apart, AddressRange.ofFrame, pageSize, hpage]
    omega
  · exact .inr (Nat.le_trans htables hge)

theorem source_steady (h : map.Placed kernelEnd boot) :
    boot.source.stop < wordLimit ∧ boot.source.Steady := by
  obtain ⟨hle, hlimit⟩ := h.tables_le
  simp only [BootMemory.source, FrameSource.Steady, pageSize, wordLimit]
  omega

theorem supplies (h : map.Placed kernelEnd boot) (hload : loadAddress ≤ kernelEnd) :
    boot.Supplies kernelEnd boot.source boot.source.pending := by
  obtain ⟨hle, hlimit⟩ := h.tables_le
  have hfirst := h.first.1
  have hheap := h.heap_lt
  have hadjacent := h.adjacent
  have hlow : sparePage2 + pageSize ≤ loadAddress := sparePage2_below_load
  obtain ⟨hstop, hsteady⟩ := h.source_steady
  refine ⟨?_, boot.source.length_pending.symm, FrameSource.handOut_eq hstop hsteady
    fun f => h.isFrame_of_mem, h.nodup_source hload, fun f hf => ?_, fun f hf => ?_,
    fun f hf g hg => ?_⟩
  · rw [boot.source.length_pending, ← h.table_pages]
    rfl
  · exact h.apart_of_mem hf (.inr (by omega)) (by omega)
  · exact h.apart_of_mem hf (.inr hlow) (by dsimp only; omega)
  · have hpage : g.toNat + pageSize ≤ sparePage1 := by
      simp only [List.mem_cons, List.not_mem_nil, or_false] at hg
      rcases hg with rfl | rfl | rfl <;> decide
    have hfar : sparePage1 ≤ loadAddress := by decide
    exact h.apart_of_mem hf (.inl hpage) (by dsimp only [AddressRange.ofFrame]; omega)

end MemoryMap.Placed

/-! ### The heap -/

namespace Arena

/-- The words of a space become a heap of that one space, which is one free block. -/
theorem heapInit_space (s : Space) (hpos : 0 < s.base) (m : Memory) (log : List Record) :
    ∃ a, heapInit ⟨s.base, s.endAddr⟩ ⟨.empty, m, log⟩ = (.ok (.ok ()), a)
      ∧ a.heap.spaces = [s] ∧ a.Sound [[⟨s.blockUnits, false⟩]] := by
  have hbounded := s.bounded
  have hend : s.endAddr = s.base + s.len * unitSize := rfl
  obtain ⟨few, hstage⟩ := stage_space s
  obtain ⟨a, hrun, hspaces, hsound, -⟩ := init_of_stage (List.pairwise_singleton _ _) hstage
    (List.cons_ne_nil _ _) m log
  have hranges : initFromRanges [.ofNat s.base, 0] [.ofNat s.endAddr, 0] ⟨.empty, m, log⟩
      = (.ok (.ok ()), a) := by
    rw [initFromRanges, Exec.bind_of_ok (Exec.view_apply _ _),
      if_neg (show ¬ Heap.empty.initialized = true by decide), extentsOfLists_space s hpos]
    exact hrun
  rw [heapInit, if_pos ⟨by dsimp only; omega, by dsimp only; rw [hend, Nat.mul_comm]; exact hbounded⟩,
    Exec.bind_of_ok hranges]
  dsimp only
  rw [Exec.bind_of_ok (Exec.view_apply _ _), Exec.bind_of_ok (record_apply _ _ _ _)]
  exact ⟨_, rfl, hspaces, ⟨hsound.spaces, hsound.free, hsound.used, hsound.capacity⟩⟩

/-- The heap is one free block over a whole range. -/
structure Fills (a : Arena) (range : AddressRange) : Prop where
  space : ∃ s, a.heap.spaces = [s] ∧ s.base = range.start ∧ s.endAddr = range.stop
    ∧ s.blocks a.memory = [⟨firstBlock, (range.stop - range.start) / unitSize - 4, false, none⟩]
  free : a.heap.freeUnits = (range.stop - range.start) / unitSize - 4
  used : a.heap.usedUnits = 0

end Arena

namespace MemoryMap

section Heap

variable {map : MemoryMap} {kernelEnd : Nat} {boot : BootMemory}

/-- The range placed for the heap is long enough for a space. -/
theorem Placed.exists_space (h : map.Placed kernelEnd boot) : ∃ s : Space,
    s.base = boot.heap.start ∧ s.endAddr = boot.heap.stop
      ∧ s.blockUnits = (boot.heap.stop - boot.heap.start) / unitSize - 4 := by
  have hheap := h.heap_lt
  have hlimit := h.tables_le
  have hadjacent := h.adjacent
  have haligned := h.aligned
  simp only [pageSize] at haligned
  have hbounded : boot.heap.start + unitSize * ((boot.heap.stop - boot.heap.start) / unitSize)
      < wordLimit := by
    simp only [unitSize, wordLimit]
    omega
  have hlong : minSpaceUnits ≤ (boot.heap.stop - boot.heap.start) / unitSize := by
    simp only [minSpaceUnits, spaceHeaderUnits, headerUnits, unitSize]
    omega
  refine ⟨⟨⟨boot.heap.start, _, ?_, hbounded⟩, hlong⟩, rfl, ?_, ?_⟩
  · simp only [unitSize]
    omega
  · simp only [Space.endAddr, Space.addrOf, unitSize]
    omega
  · simp only [Space.blockUnits, Space.sentinel, firstBlock, spaceHeaderUnits, headerUnits,
      Nat.sub_sub]

/-- Where boot places it, a heap can be set up, whatever memory holds. -/
theorem Placed.heapInit_fills (h : map.Placed kernelEnd boot) (hload : loadAddress ≤ kernelEnd)
    (m : Memory) (log : List Record) : ∃ a,
    Arena.heapInit boot.heap ⟨.empty, m, log⟩ = (.ok (.ok ()), a) ∧ a.Fills boot.heap := by
  obtain ⟨s, hbase, hend, hunits⟩ := h.exists_space
  have hload' : 0 < loadAddress := by decide
  have hpos : 0 < s.base := by
    rw [hbase]
    exact Nat.lt_of_lt_of_le hload' (Nat.le_trans hload h.first.1)
  obtain ⟨a, hrun, hspaces, hsound⟩ := Arena.heapInit_space s hpos m log
  rw [hbase, hend] at hrun
  refine ⟨a, hrun, ⟨s, hspaces, hbase, hend, ?_⟩, ?_, hsound.used⟩
  · have hcells := hsound.spaces
    rw [hspaces] at hcells
    rw [Space.blocks_of_sound hcells.1, ← hunits]
    rfl
  · rw [hsound.free, ← hunits]
    rfl

end Heap

/-! ### All of it -/

/-- Boot memory is where it should be, its table range supplies frames, and its heap can be set up in
memory of any contents. -/
structure Provides (map : MemoryMap) (kernelEnd : Nat) (boot : BootMemory) : Prop where
  placed : map.Placed kernelEnd boot
  frames : ∃ source frames, FrameSource.bump TableLayout.boot.spareFrames boot.tables.start
    boot.tables.stop = .ok source ∧ boot.Supplies kernelEnd source frames
  heap : ∀ m log, ∃ a, Arena.heapInit boot.heap ⟨.empty, m, log⟩ = (.ok (.ok ()), a)
    ∧ a.Fills boot.heap

/-- For every memory map, boot finds that there is no room behind the kernel image, or it finds room
and all that is to go there works. -/
theorem bootMemory_provides (map : MemoryMap) {kernelEnd : Nat} (hload : loadAddress ≤ kernelEnd)
    (hend : kernelEnd < registerLimit) (a : Arena) :
    (Arena.bootMemory map kernelEnd a).1 = .ok (.error (.noHeapRegion kernelEnd))
      ∧ map.NoRoom kernelEnd
    ∨ ∃ boot, (Arena.bootMemory map kernelEnd a).1 = .ok (.ok boot)
      ∧ map.Provides kernelEnd boot := by
  rw [Arena.bootMemory_fst]
  rcases map.place_cases kernelEnd with ⟨-, hover⟩ | hnone | ⟨boot, hboot, hplaced⟩
  · simp only [registerLimit, wordLimit, pageSize] at hend hover
    omega
  · exact .inl hnone
  · exact .inr ⟨boot, hboot, hplaced, ⟨_, _, hplaced.bump_eq, hplaced.supplies hload⟩,
      hplaced.heapInit_fills hload⟩

/-- The map of a machine with free memory from the kernel image on. -/
def sample : MemoryMap := .ofEntries [
  ⟨0, 0x9FC00, 1, [], by decide, by decide, by decide, by decide⟩,
  ⟨0xF0000, 0x10000, 2, [], by decide, by decide, by decide, by decide⟩,
  ⟨0x100000, 0x3EE0000, 1, [], by decide, by decide, by decide, by decide⟩]

theorem place_sample : sample.place imageEnd
    = .ok (.ok ⟨⟨0x10F000, 0x1C0000⟩, ⟨0x1C0000, 0x200000⟩⟩) := by
  rw [place, heapRegion, sample, regions_ofEntries]
  rfl

theorem bootMemory_provides_sample : ∃ boot,
    (Arena.bootMemory .sample imageEnd ⟨.empty, .filled 0, []⟩).1 = .ok (.ok boot)
      ∧ boot.heap = ⟨0x10F000, 0x1C0000⟩ ∧ sample.Provides imageEnd boot := by
  rcases bootMemory_provides .sample (show loadAddress ≤ imageEnd by decide) (by decide)
    ⟨.empty, .filled 0, []⟩ with ⟨hnone, -⟩ | ⟨boot, hboot, hprovides⟩
  · rw [Arena.bootMemory_fst, place_sample] at hnone
    cases hnone
  · refine ⟨boot, hboot, ?_, hprovides⟩
    rw [Arena.bootMemory_fst, place_sample] at hboot
    cases hboot
    rfl

end MemoryMap

end PaeKernel
