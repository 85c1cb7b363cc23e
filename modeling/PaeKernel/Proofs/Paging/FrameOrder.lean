import PaeKernel.Proofs.Paging.Drafts

/-!
# Which frames a source hands out

A source over whole pages (`FrameSource.Paged`) hands out what is pending, one frame a call
(`FrameSource.Paged.afterCalls`). A source made from any range is such a source, and what is pending
in it are the reserved frames and then the pages that lie in the range. After the last one it has
nothing to give, except that a range which reaches the last page of all makes the search for a next
page overflow, then and on every later call (`FrameSource.bump_hands_out`).
-/

namespace PaeKernel.FrameSource

variable {s : FrameSource} {f : PhysicalAddress} {rest reserved : List PhysicalAddress}
  {start stop : Nat}

/-- The source after so many calls, whatever their answers were. -/
def afterCalls (s : FrameSource) : Nat → FrameSource
  | 0 => s
  | n + 1 => (alloc (s.afterCalls n)).2

/-- The source answers call after call with these frames, and every call after them in one way; it
always knows how many frames are to come. -/
structure HandsOut (s : FrameSource) (frames : List PhysicalAddress)
    (after : Except Panic (Option PhysicalAddress)) : Prop where
  answer : ∀ n, (alloc (s.afterCalls n)).1 = (frames[n]?.map fun f => .ok (some f)).getD after
  remaining : ∀ n, (s.afterCalls n).remaining = frames.length - n

/-! ### One call and many -/

/-- All that is pending are pages, and those of the range are cut out of addresses. -/
structure Paged (s : FrameSource) : Prop where
  pending : ∀ f ∈ s.pending, f.isPageAligned = true
  next : s.next % pageSize = 0
  stop : s.stop % pageSize = 0
  le : s.next ≤ s.stop
  lt : s.stop < wordLimit

theorem Paged.alloc_cons (h : s.Paged) (hp : s.pending = f :: rest) :
    ∃ s', alloc s = (.ok (some f), s') ∧ s'.Paged ∧ s'.pending = rest ∧ s'.stop = s.stop := by
  obtain ⟨s', hrun, hrest, hstop, hnext⟩ :=
    alloc_of_pending_cons hp (h.pending f (hp ▸ List.mem_cons_self)) h.lt
  have haligned := h.next
  have hle := h.le
  refine ⟨s', hrun, ⟨?_, ?_, hstop ▸ h.stop, ?_, hstop ▸ h.lt⟩, hrest, hstop⟩
  · rw [hrest]
    exact fun g hg => h.pending g (hp ▸ List.mem_cons_of_mem f hg)
  · rcases hnext with hnext | ⟨-, hnext, -⟩
    · rw [hnext, haligned]
    · rw [hnext, Nat.add_mod_right, haligned]
  · rcases hnext with hnext | ⟨-, -, hnext⟩
    · rwa [hnext, hstop]
    · rwa [hstop]

/-- A source at its end has come to the end of its range. -/
theorem Paged.alloc_nil (h : s.Paged) (hp : s.pending = []) :
    alloc s = (if s.stop + pageSize < wordLimit then .ok none else .error .addOverflow, s) := by
  have hend : s.next = s.stop := by
    have hcount := s.length_pending
    obtain ⟨-, hnext, hstop, hle, -⟩ := h
    rw [hp] at hcount
    simp only [remaining, pageSize, List.length_nil] at *
    omega
  by_cases hs : s.stop + pageSize < wordLimit
  · rw [if_pos hs, alloc_of_pending_nil hp (hend ▸ hs)]
  · rw [if_neg hs, alloc_of_not_steady hp (by rwa [Steady, hend])]

theorem Paged.afterCalls (h : s.Paged) (n : Nat) : (s.afterCalls n).Paged
    ∧ (s.afterCalls n).pending = s.pending.drop n ∧ (s.afterCalls n).stop = s.stop := by
  induction n with
  | zero => exact ⟨h, rfl, rfl⟩
  | succ n ih =>
    obtain ⟨hpaged, hpending, hstop⟩ := ih
    rw [FrameSource.afterCalls, ← List.tail_drop, ← hpending, ← hstop]
    cases hp : (s.afterCalls n).pending with
    | nil =>
      rw [hpaged.alloc_nil hp]
      exact ⟨hpaged, hp, rfl⟩
    | cons f rest =>
      obtain ⟨s', hrun, hpaged', hrest, hstop'⟩ := hpaged.alloc_cons hp
      rw [hrun]
      exact ⟨hpaged', hrest, hstop'⟩

theorem Paged.handsOut (h : s.Paged) : s.HandsOut s.pending
    (if s.stop + pageSize < wordLimit then .ok none else .error .addOverflow) where
  answer n := by
    obtain ⟨hpaged, hpending, hstop⟩ := h.afterCalls n
    rw [← List.head?_drop, ← hpending, ← hstop]
    cases hp : (s.afterCalls n).pending with
    | nil =>
      rw [hpaged.alloc_nil hp, List.head?_nil, Option.map_none, Option.getD_none]
    | cons f rest =>
      obtain ⟨s', hrun, -⟩ := hpaged.alloc_cons hp
      rw [hrun]
      rfl
  remaining n := by
    rw [← length_pending, (h.afterCalls n).2.1, List.length_drop]

/-! ### Sources made from a range -/

/-- The pages of the range, in the order of their addresses. -/
def pages (s : FrameSource) : List PhysicalAddress :=
  (List.range ((s.stop - s.next) / pageSize)).map fun i => .ofNat (s.next + i * pageSize)

theorem pending_eq (s : FrameSource) : s.pending = s.reserved ++ s.pages := rfl

theorem mem_pages (hnext : s.next % pageSize = 0) (hlt : s.stop < wordLimit) : f ∈ s.pages
    ↔ f.toNat % pageSize = 0 ∧ s.next ≤ f.toNat ∧ f.toNat + pageSize ≤ s.stop := by
  simp only [pages, List.mem_map, List.mem_range, PhysicalAddress.ext_iff,
    PhysicalAddress.toNat_ofNat, pageSize, wordLimit] at *
  constructor
  · rintro ⟨i, hi, hf⟩
    omega
  · intro hf
    exact ⟨(f.toNat - s.next) / 4096, by omega, by omega⟩

theorem pairwise_pages (hlt : s.stop < wordLimit) :
    s.pages.Pairwise fun f g => f.toNat < g.toNat := by
  refine List.pairwise_map.2 (List.pairwise_lt_range.imp_of_mem ?_)
  intro i j hi hj hij
  simp only [List.mem_range, PhysicalAddress.toNat_ofNat, pageSize, wordLimit] at *
  omega

theorem eq_of_bump (hstop : stop < wordLimit) (h : bump reserved start stop = .ok s) :
    start + pageSize < wordLimit ∧ s = ⟨reserved, (start + 4095) / 4096 * 4096,
      max (stop / 4096 * 4096) ((start + 4095) / 4096 * 4096)⟩ := by
  by_cases hstart : start + pageSize < wordLimit
  · rw [bump, alignUp_pageSize hstart, alignDown_pageSize hstop] at h
    exact ⟨hstart, (Except.ok.inj h).symm⟩
  · rw [bump, alignUp_of_ge (Nat.le_of_not_lt hstart)] at h
    cases h

/-- A source over a range can always be asked for one frame more if the range starts at least two
pages before the end of all addresses, and only then. -/
theorem steady_iff_of_bump (hstop : stop < wordLimit) (h : bump reserved start stop = .ok s) :
    s.Steady ↔ start + 2 * pageSize ≤ wordLimit := by
  obtain ⟨-, rfl⟩ := eq_of_bump hstop h
  simp only [Steady, pageSize, wordLimit]
  omega

/-- The ends of the range leave out the last page of all, also after they are rounded to pages. -/
theorem stop_lt_iff (hstart : start + pageSize < wordLimit) (hstop : stop < wordLimit) :
    max (stop / 4096 * 4096) ((start + 4095) / 4096 * 4096) + pageSize < wordLimit
      ↔ start + 2 * pageSize ≤ wordLimit ∧ stop + pageSize < wordLimit := by
  simp only [pageSize, wordLimit] at *
  omega

/-- A source made from reserved frames and any range hands out the reserved frames, then the pages
that lie in the range, each of them once, and knows at every time how many are to come. After that it
has no frame to give, unless an end of the range is rounded to the start of the last page of all: then
every further call overflows. -/
theorem bump_hands_out (hreserved : ∀ f ∈ reserved, f.isPageAligned = true)
    (hstop : stop < wordLimit) (h : bump reserved start stop = .ok s) : ∃ pages,
      (pages.Pairwise fun f g => f.toNat < g.toNat)
      ∧ (∀ f, f ∈ pages ↔ f.toNat % pageSize = 0 ∧ start ≤ f.toNat ∧ f.toNat + pageSize ≤ stop)
      ∧ s.HandsOut (reserved ++ pages)
        (if start + 2 * pageSize ≤ wordLimit ∧ stop + pageSize < wordLimit then .ok none
          else .error .addOverflow) := by
  obtain ⟨hstart, rfl⟩ := eq_of_bump hstop h
  simp only [← stop_lt_iff hstart hstop]
  generalize hs : FrameSource.mk reserved _ _ = s
  have hnext : s.next = (start + 4095) / 4096 * 4096 := hs ▸ rfl
  have hend : s.stop = max (stop / 4096 * 4096) ((start + 4095) / 4096 * 4096) := hs ▸ rfl
  have haligned : s.next % pageSize = 0 := hnext ▸ Nat.mul_mod_left _ _
  have hlt : s.stop < wordLimit := by
    simp only [pageSize, wordLimit] at *
    omega
  have hpaged : s.Paged := by
    refine ⟨?_, haligned, ?_, ?_, hlt⟩
    · intro f hf
      rcases List.mem_append.1 hf with hf | hf
      · rw [← hs] at hf
        exact hreserved f hf
      · exact beq_iff_eq.2 ((mem_pages haligned hlt).1 hf).1
    · simp only [pageSize] at *
      omega
    · omega
  have hhands := hpaged.handsOut
  rw [pending_eq, hend] at hhands
  refine ⟨s.pages, pairwise_pages hlt, fun f => ?_, hs ▸ hhands⟩
  rw [mem_pages haligned hlt]
  simp only [pageSize] at *
  omega

/-- A reserved frame, the one page in a range at the very top, and then nothing but overflows. -/
theorem bump_hands_out_sample : ∃ s,
    bump [.ofNat 0x4000] 0xFFFFFFFFFFFFE000 0xFFFFFFFFFFFFFFFF = .ok s
      ∧ (alloc (s.afterCalls 0)).1 = .ok (some (.ofNat 0x4000))
      ∧ (alloc (s.afterCalls 1)).1 = .ok (some (.ofNat 0xFFFFFFFFFFFFE000))
      ∧ ∀ n, 2 ≤ n → (alloc (s.afterCalls n)).1 = .error .addOverflow
        ∧ (s.afterCalls n).remaining = 0 := by
  have hbump : bump [.ofNat 0x4000] 0xFFFFFFFFFFFFE000 0xFFFFFFFFFFFFFFFF
      = .ok ⟨[.ofNat 0x4000], 0xFFFFFFFFFFFFE000, 0xFFFFFFFFFFFFF000⟩ := by
    rw [bump, alignUp_of_aligned (by decide) (by decide), alignDown_pageSize (by decide)]
    rfl
  obtain ⟨pages, -, hmem, hanswer, hremaining⟩ := bump_hands_out (by decide) (by decide) hbump
  have hlength : pages.length = 1 := by
    have hcount := hremaining 0
    simp only [List.length_append, List.length_singleton] at hcount
    exact Nat.add_left_cancel hcount.symm
  obtain ⟨page, rfl⟩ := List.length_eq_one_iff.1 hlength
  obtain rfl : PhysicalAddress.ofNat 0xFFFFFFFFFFFFE000 = page :=
    List.mem_singleton.1 ((hmem _).2 (by decide))
  refine ⟨_, hbump, hanswer 0, hanswer 1, fun n hn => ⟨?_, ?_⟩⟩
  · rw [hanswer n, List.getElem?_eq_none hn]
    rfl
  · rw [hremaining n]
    exact Nat.sub_eq_zero_of_le hn

end PaeKernel.FrameSource
