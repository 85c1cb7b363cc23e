import Mathlib.Data.List.Nodup
import PaeKernel.Proofs.Heap.Run

/-!
# Live allocations are isolated

`HeapRun.Tracked` ties the allocations that clients hold to the payloads that the heap sees. Every
step keeps it, and with it the payloads of a heap stay apart from each other and from the heap's own
books. A request writes into headers of the new layout only and a release into headers of the old
one, so neither reaches a payload that is live before and after.
-/

namespace PaeKernel

namespace Space

variable {s : Space} {m m' : Memory} {P : Nat → Prop} {address : Nat}

theorem ChangesOnly.readByte_eq (h : s.ChangesOnly P m m')
    (hne : ∀ j, P j → j < s.len → address / 8 ≠ s.addrOf j / 8) :
    m'.readByte address = m.readByte address := by
  unfold Memory.readByte
  rw [h address hne]

theorem div_ne_of_not_contains (h : s.contains address = false) {j : Nat} (hj : j < s.len) :
    address / 8 ≠ s.addrOf j / 8 := by
  have haligned := s.aligned
  rw [addrOf_div]
  intro heq
  have hin : s.contains address = true := by
    rw [contains, Bool.and_eq_true, decide_eq_true_eq, decide_eq_true_eq, endAddr, addrOf]
    simp only [unitSize] at *
    omega
  rw [h] at hin
  exact Bool.false_ne_true hin

end Space

namespace HeapRun

variable {r r' : HeapRun} {call : HeapCall} {cells : List (List Cell)} {a : Arena} {p q : Payload}

/-- The payloads of the heap are those of the live allocations. -/
structure Tracked (r : HeapRun) (cells : List (List Cell)) : Prop where
  sound : r.arena.Sound cells
  apart : Arena.Apart r.arena.heap.spaces
  matched : (r.arena.payloads.map Payload.start).Perm (r.live.map Allocation.pointer)
  room : ∀ x ∈ r.live, ∀ q ∈ r.arena.payloads, q.start = x.pointer → max x.size 1 ≤ q.bytes

namespace Tracked

theorem exists_live (h : r.Tracked cells) (hq : q ∈ r.arena.payloads) :
    ∃ x ∈ r.live, x.pointer = q.start :=
  List.mem_map.1 (h.matched.mem_iff.1 (List.mem_map_of_mem hq))

theorem exists_payload (h : r.Tracked cells) {x : Allocation} (hx : x ∈ r.live) :
    ∃ q ∈ r.arena.payloads, q.start = x.pointer :=
  List.mem_map.1 (h.matched.mem_iff.2 (List.mem_map_of_mem hx))

theorem bytes_pos (h : r.Tracked cells) (hq : q ∈ r.arena.payloads) : 0 < q.bytes := by
  obtain ⟨x, hx, hstart⟩ := h.exists_live hq
  have := h.room x hx q hq hstart.symm
  omega

theorem pairwise_payloads (h : r.Tracked cells) : r.arena.payloads.Pairwise Payload.Apart :=
  h.sound.pairwise_payloads h.apart

theorem nodup (h : r.Tracked cells) : (r.live.map Allocation.pointer).Nodup := by
  rw [← h.matched.nodup_iff, List.Nodup, List.pairwise_map]
  refine List.Pairwise.imp_of_mem ?_ h.pairwise_payloads
  intro p q hp hq hpq heq
  have hpPos := h.bytes_pos hp
  have hqPos := h.bytes_pos hq
  simp only [Payload.Apart] at hpq
  omega

end Tracked

/-! ### Steps keep track -/

theorem tracked_start (h : a.Sound cells) (hap : Arena.Apart a.heap.spaces)
    (hnone : a.payloads = []) : (start a).Tracked cells where
  sound := h
  apart := hap
  matched := by rw [start, hnone]; exact List.Perm.nil
  room := fun _ hx => nomatch hx

theorem Tracked.served (h : r.Tracked cells) {size units : Nat} {p : Spot} {a : Arena}
    (hunits : unitsFor size = some units) (hcells : p.cells = cells)
    (hserved : Arena.Served r.arena a p units) :
    ∃ cells', Tracked ⟨a, ⟨p.address, size⟩ :: r.live⟩ cells' := by
  subst hcells
  have hperm := hserved.payloads_perm h.sound
  have hap : Arena.Apart a.heap.spaces := by rw [hserved.kept]; exact h.apart
  have hpair := (hperm.pairwise_iff fun hpq => hpq.symm).1 (hserved.sound.pairwise_payloads hap)
  have hfar := (List.pairwise_cons.1 hpair).1
  have hbytes := hserved.le_bytes hunits
  have hne : ∀ q ∈ r.arena.payloads, q.start ≠ p.address := by
    intro q hq heq
    have hpos := h.bytes_pos hq
    have hapart := hfar q hq
    have hstart : (p.space.payloadOf p.block.index (Cell.granted p.cell.units units)).start
        = p.address := rfl
    simp only [Payload.Apart] at hapart
    omega
  refine ⟨_, hserved.sound, hap, ?_, ?_⟩
  · refine (hperm.map Payload.start).trans ?_
    exact List.Perm.cons _ h.matched
  · intro x hx q hq hstart
    rcases List.mem_cons.1 hx with rfl | hx <;>
      rcases List.mem_cons.1 (hperm.mem_iff.1 hq) with rfl | hq
    · exact hbytes
    · exact absurd hstart (hne q hq)
    · obtain ⟨q, hq, hstart'⟩ := h.exists_payload hx
      exact absurd (hstart'.trans hstart.symm) (hne q hq)
    · exact h.room x hx q hq hstart

theorem Tracked.released (h : r.Tracked cells) {p : Spot} {a : Arena} (hcells : p.cells = cells)
    (hreleased : Arena.Released r.arena a p) :
    ∃ cells', Tracked ⟨a, r.live.filter (·.pointer != p.address)⟩ cells' := by
  subst hcells
  have hperm := hreleased.payloads_perm h.sound
  have hstarts : (p.address :: a.payloads.map Payload.start).Perm (r.live.map Allocation.pointer) :=
    (hperm.map Payload.start).symm.trans h.matched
  have hfresh : p.address ∉ a.payloads.map Payload.start :=
    (List.nodup_cons.1 (hstarts.nodup_iff.2 h.nodup)).1
  refine ⟨_, hreleased.sound, by rw [hreleased.kept]; exact h.apart, ?_, ?_⟩
  · have hfilter := hstarts.filter (· != p.address)
    rw [List.filter_cons_of_neg (by simp), List.filter_eq_self.2, List.filter_map] at hfilter
    · exact hfilter
    · intro start hmem
      exact bne_iff_ne.2 fun heq => hfresh (heq ▸ hmem)
  · intro x hx q hq hstart
    exact h.room x (List.mem_filter.1 hx).1 q (hperm.mem_iff.2 (List.mem_cons_of_mem _ hq)) hstart

theorem Tracked.logged (h : r.Tracked cells) (log : List Record) :
    Tracked ⟨{ r.arena with log }, r.live⟩ cells where
  sound := ⟨h.sound.spaces, h.sound.free, h.sound.used, h.sound.capacity⟩
  apart := h.apart
  matched := h.matched
  room := h.room

/-- What clients write into their payloads does not change what is live. -/
theorem Tracked.client (h : r.Tracked cells) (hq : q ∈ r.arena.payloads) {m : Memory}
    (hsame : r.arena.memory.SameOutside m q) :
    Tracked ⟨{ r.arena with memory := m }, r.live⟩ cells where
  sound := h.sound.client h.apart hq hsame
  apart := h.apart
  matched := by
    rw [h.sound.payloads_client h.apart hq hsame]
    exact h.matched
  room := by
    rw [h.sound.payloads_client h.apart hq hsame]
    exact h.room

theorem Effect.tracked (he : Effect cells r call r') (h : r.Tracked cells) :
    ∃ cells', r'.Tracked cells' := by
  cases he with
  | idle => exact ⟨cells, h.logged _⟩
  | served size units p a hunits hcells hserved => exact h.served hunits hcells hserved
  | released p a hcells hreleased => exact h.released hcells hreleased
  | written q address byte hq hholds =>
    exact ⟨cells, h.client hq (Memory.sameOutside_writeByte hholds byte)⟩

/-! ### What a step leaves alone -/

/-- What a step from one run to the next leaves alone: the payloads of allocations that are live
before and after it, and all memory outside the spaces of the heap. -/
structure Keeps (r r' : HeapRun) : Prop where
  payload : ∀ x ∈ r.live, x ∈ r'.live → ∀ q ∈ r.arena.payloads, q.start = x.pointer →
    q ∈ r'.arena.payloads ∧ ∀ address, q.Holds address →
      r'.arena.memory.readByte address = r.arena.memory.readByte address
  outside : ∀ address, (∀ s ∈ r.arena.heap.spaces, s.contains address = false) →
    r'.arena.memory.readByte address = r.arena.memory.readByte address

theorem Tracked.keeps_served (h : r.Tracked cells) {units : Nat} {p : Spot} {a : Arena}
    (hcells : p.cells = cells) (hserved : Arena.Served r.arena a p units) (live : List Allocation) :
    r.Keeps ⟨a, live⟩ := by
  subst hcells
  have hmem : p.space ∈ r.arena.heap.spaces := hserved.spaces ▸ p.space_mem
  have hspaces := hserved.sound.spaces
  rw [hserved.kept, ← hserved.spaces] at hspaces
  have hspot := hspaces.middle p.length_eq
  refine ⟨?_, ?_⟩
  · intro x _ _ q hq _
    have hq' : q ∈ a.payloads :=
      (hserved.payloads_perm h.sound).mem_iff.2 (List.mem_cons_of_mem _ hq)
    refine ⟨hq', ?_⟩
    intro address hholds
    refine hserved.touched.readByte_eq ?_
    intro j hj hlt
    refine hserved.sound.div_ne_of_holds ?_ hq' ?_ (hspot.bookkeeping_of_headerUnit hj) hlt hholds
    · rw [hserved.kept]
      exact h.apart
    · rw [hserved.kept]
      exact hmem
  · intro address hout
    exact hserved.touched.readByte_eq fun j _ hlt =>
      Space.div_ne_of_not_contains (hout _ hmem) hlt

theorem Tracked.keeps_released (h : r.Tracked cells) {p : Spot} {a : Arena}
    (hcells : p.cells = cells) (hreleased : Arena.Released r.arena a p) :
    r.Keeps ⟨a, r.live.filter (·.pointer != p.address)⟩ := by
  subst hcells
  have hmem : p.space ∈ r.arena.heap.spaces := hreleased.spaces ▸ p.space_mem
  have hspot := Arena.SpacesSound.spot (hreleased.spaces ▸ h.sound.spaces)
  refine ⟨?_, ?_⟩
  · intro x _ hx q hq hstart
    refine ⟨?_, ?_⟩
    · rcases List.mem_cons.1 ((hreleased.payloads_perm h.sound).mem_iff.1 hq) with rfl | hq'
      · have hne := (List.mem_filter.1 hx).2
        exact absurd hstart.symm (bne_iff_ne.1 hne)
      · exact hq'
    · intro address hholds
      refine hreleased.touched.readByte_eq ?_
      intro j hj hlt
      exact h.sound.div_ne_of_holds h.apart hq hmem (hspot.bookkeeping_of_headerUnit hj) hlt hholds
  · intro address hout
    exact hreleased.touched.readByte_eq fun j _ hlt =>
      Space.div_ne_of_not_contains (hout _ hmem) hlt

theorem Effect.keeps (he : Effect cells r call r') (h : r.Tracked cells)
    (hcall : ∀ address byte, call ≠ .write address byte) : r.Keeps r' := by
  cases he with
  | idle => exact ⟨fun _ _ _ q hq _ => ⟨hq, fun _ _ => rfl⟩, fun _ _ => rfl⟩
  | served size units p a hunits hcells hserved => exact h.keeps_served hcells hserved _
  | released p a hcells hreleased => exact h.keeps_released hcells hreleased
  | written q address byte hq hholds => exact absurd rfl (hcall address byte)

/-! ### Whole runs -/

theorem run_tracked (h : r.Tracked cells) (calls : List HeapCall) :
    ∃ r', r.run calls = .ok r' ∧ ∃ cells', r'.Tracked cells' := by
  refine run_of_step (P := fun s => ∃ cells', s.Tracked cells') ?_ ⟨cells, h⟩ calls
  rintro s ⟨own, htracked⟩ call
  obtain ⟨s', hstep, heffect⟩ := step_effect htracked.sound htracked.apart call
  exact ⟨s', hstep, heffect.tracked htracked⟩

theorem tracked_of_setUp (h : a.SetUp) : (start a).Tracked (Arena.whole a.heap.spaces) := by
  obtain ⟨hsound, hap⟩ := h.sound
  refine tracked_start hsound hap ?_
  rw [Arena.payloads, hsound.spaces.payloads_eq]
  unfold Arena.cellPayloads Arena.whole
  rw [List.zipWith_map_right, List.flatten_eq_nil_iff]
  simp [Space.cellPayloads, Cell.inUse]

/-- The live allocations are the blocks in use, each in its place, and their payloads are apart from
each other and from all that the heap keeps for itself. -/
structure Isolated (r : HeapRun) : Prop where
  matched : (r.arena.payloads.map Payload.start).Perm (r.live.map Allocation.pointer)
  distinct : (r.live.map Allocation.pointer).Nodup
  placed : ∀ x ∈ r.live, ∃ s ∈ r.arena.heap.spaces, ∃ q ∈ s.payloads r.arena.memory,
    q.start = x.pointer ∧ q.start % unitSize = 0 ∧ max x.size 1 ≤ q.bytes
      ∧ s.addrOf firstBlock ≤ q.start ∧ q.start + q.bytes ≤ s.addrOf s.sentinel
  apart : r.arena.payloads.Pairwise Payload.Apart
  clear : ∀ q ∈ r.arena.payloads, ∀ t ∈ r.arena.heap.spaces, ∀ j < t.len,
    t.Bookkeeping r.arena.memory j → q.Apart ⟨t.addrOf j, unitSize⟩

theorem Tracked.isolated (h : r.Tracked cells) : r.Isolated where
  matched := h.matched
  distinct := h.nodup
  placed := by
    intro x hx
    obtain ⟨q, hq, hstart⟩ := h.exists_payload hx
    obtain ⟨s, hs, hq'⟩ := List.mem_flatMap.1 hq
    obtain ⟨_, _, hsound⟩ := h.sound.spaces.exists_sound hs
    obtain ⟨hlow, hhigh, haligned⟩ := hsound.payload_bounds hq'
    exact ⟨s, hs, q, hq', hstart, haligned, h.room x hx q hq hstart, hlow, hhigh⟩
  apart := h.pairwise_payloads
  clear := by
    intro q hq t ht j hlt hj
    have hpos := h.bytes_pos hq
    have haligned := t.aligned
    by_contra hmeet
    -- the first address that both ranges have
    have hholds : q.Holds (max q.start (t.addrOf j)) := by
      simp only [Payload.Apart, Payload.Holds] at *
      omega
    refine h.sound.div_ne_of_holds h.apart hq ht hj hlt hholds ?_
    simp only [Payload.Apart, Space.addrOf, unitSize] at *
    omega

/-- At every point of a run of a heap just set up the live allocations are isolated, and neither a
request nor a release changes what stays live or what lies outside the heap. -/
theorem run_isolated (h : a.SetUp) (calls : List HeapCall) : ∃ r, (start a).run calls = .ok r
    ∧ r.Isolated
    ∧ (∀ size, ∃ r', r.step (.malloc size) = .ok r' ∧ r.Keeps r')
    ∧ ∀ address, ∃ r', r.step (.free address) = .ok r' ∧ r.Keeps r' := by
  obtain ⟨r, hrun, cells, htracked⟩ := run_tracked (tracked_of_setUp h) calls
  refine ⟨r, hrun, htracked.isolated, ?_, ?_⟩
  · intro size
    obtain ⟨r', hstep, heffect⟩ := step_effect htracked.sound htracked.apart (.malloc size)
    exact ⟨r', hstep, heffect.keeps htracked nofun⟩
  · intro address
    obtain ⟨r', hstep, heffect⟩ := step_effect htracked.sound htracked.apart (.free address)
    exact ⟨r', hstep, heffect.keeps htracked nofun⟩

theorem run_isolated_sample : ∃ r,
    (start Arena.sample).run [.malloc 5, .malloc 1, .write 0x1020 7, .free 0x1020] = .ok r
      ∧ r.Isolated := by
  obtain ⟨r, hrun, hisolated, -⟩ := run_isolated Arena.setUp_sample
    [.malloc 5, .malloc 1, .write 0x1020 7, .free 0x1020]
  exact ⟨r, hrun, hisolated⟩

end HeapRun

end PaeKernel
