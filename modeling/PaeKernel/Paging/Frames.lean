import PaeKernel.Address.Physical

/-!
# Frames for new tables

A frame source hands out reserved frames first, in order, and then the pages of a range from its
start on. A reserved frame that is not the start of a page panics and is not consumed.
-/

namespace PaeKernel

/-- Frames still to be handed out. -/
@[ext] structure FrameSource where
  reserved : List PhysicalAddress
  next : Nat
  stop : Nat
  deriving DecidableEq

namespace FrameSource

/-- A source of just these frames. -/
def pool (frames : List PhysicalAddress) : FrameSource := ⟨frames, 0, 0⟩

/-- A source of these frames and then of the whole pages in a range. -/
def bump (reserved : List PhysicalAddress) (start stop : Nat) : Except Panic FrameSource := do
  let first ← alignUp start pageSize
  let last ← alignDown stop pageSize
  return ⟨reserved, first, max last first⟩

/-- How many frames are left. -/
def remaining (s : FrameSource) : Nat := s.reserved.length + (s.stop - s.next) / pageSize

/-- The frames left, in the order in which they are handed out. -/
def pending (s : FrameSource) : List PhysicalAddress :=
  s.reserved ++ (List.range ((s.stop - s.next) / pageSize)).map fun i =>
    .ofNat (s.next + i * pageSize)

theorem length_pending (s : FrameSource) : s.pending.length = s.remaining := by
  simp [pending, remaining]

/-- Hands out the next frame. -/
def alloc : Exec FrameSource (Option PhysicalAddress) := do
  match ← Exec.view FrameSource.reserved with
  | frame :: rest =>
    Exec.require (frame.isPageAligned = true) .unalignedFrame
    Exec.update fun s => { s with reserved := rest }
    return some frame
  | [] =>
    let next ← Exec.view FrameSource.next
    let after ← Exec.check (addWord next pageSize)
    if (← Exec.view FrameSource.stop) < after then return none
    else
      Exec.update fun s => { s with next := after }
      return some (.ofNat next)

theorem alloc_of_pending_nil {s : FrameSource} (h : s.pending = [])
    (hs : s.next + pageSize < wordLimit) : alloc s = (.ok none, s) := by
  obtain ⟨reserved, next, stop⟩ := s
  simp only [pending, List.append_eq_nil_iff, List.map_eq_nil_iff, List.range_eq_nil] at h
  obtain ⟨rfl, hz⟩ := h
  have hlt : stop < next + pageSize := by
    simp only [pageSize] at *; omega
  simp [alloc, Exec.bind_apply, addWord_of_lt hs, hlt]

theorem alloc_of_pending_cons {s : FrameSource} {frame : PhysicalAddress}
    {rest : List PhysicalAddress} (h : s.pending = frame :: rest) (ha : frame.isPageAligned = true)
    (hs : s.stop < wordLimit) :
    ∃ s', alloc s = (.ok (some frame), s') ∧ s'.pending = rest ∧ s'.stop = s.stop
      ∧ (s'.next = s.next ∨ frame = .ofNat s.next ∧ s'.next = s.next + pageSize
        ∧ s'.next ≤ s.stop) := by
  obtain ⟨reserved, next, stop⟩ := s
  cases reserved with
  | cons f more =>
    simp only [pending, List.cons_append, List.cons.injEq] at h
    obtain ⟨rfl, h⟩ := h
    exact ⟨⟨more, next, stop⟩, by simp [alloc, Exec.bind_apply, Exec.require_apply, ha], h, rfl,
      .inl rfl⟩
  | nil =>
    simp only [pending, List.nil_append] at h
    obtain ⟨n, hn⟩ : ∃ n, (stop - next) / pageSize = n + 1 := by
      cases hq : (stop - next) / pageSize with
      | zero => simp [hq] at h
      | succ n => exact ⟨n, rfl⟩
    have hle : next + pageSize ≤ stop := by simp only [pageSize] at *; omega
    have hrest : (stop - (next + pageSize)) / pageSize = n := by
      simp only [pageSize] at *; omega
    rw [hn, List.range_succ_eq_map, List.map_cons, List.map_map] at h
    obtain ⟨hf, hr⟩ := List.cons.inj h
    refine ⟨⟨[], next + pageSize, stop⟩, ?_, ?_, rfl, .inr ⟨?_, rfl, hle⟩⟩
    · rw [← hf]
      simp [alloc, Exec.bind_apply, addWord_of_lt (Nat.lt_of_le_of_lt hle hs), Nat.not_lt.2 hle]
    · rw [← hr]
      simp only [pending, hrest, List.nil_append]
      refine List.map_congr_left fun i _ => congrArg PhysicalAddress.ofNat ?_
      simp only [pageSize]; omega
    · rw [← hf, Nat.zero_mul, Nat.add_zero]

end FrameSource

end PaeKernel
