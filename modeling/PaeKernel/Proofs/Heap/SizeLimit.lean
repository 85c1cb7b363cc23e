import PaeKernel.Proofs.Heap.Setup

/-!
# The longest space

The block that a space is made of when it is set up has all its units but four. The check of a
length before that allows for seven, the units of the smallest space, and so it lets three lengths
pass whose block is too large for a size word (`overlongSpaces`). These are more words than the
address space has, so no run of words is so long (`Extent.len_not_mem_overlongSpaces`); at all other
lengths the check and the size word agree (`checkLength_fits`).
-/

namespace PaeKernel

variable {len : Nat}

/-- The lengths that pass the check though the block of such a space is too large. -/
def overlongSpaces : List Nat := [0x8000000000000004, 0x8000000000000005, 0x8000000000000006]

theorem Extent.len_not_mem_overlongSpaces (e : Extent) : e.len ∉ overlongSpaces := by
  have hbounded := e.bounded
  simp only [overlongSpaces, unitSize, wordLimit, List.mem_cons, List.not_mem_nil, or_false] at *
  omega

namespace Space

variable {s : Space}

theorem blockUnits_eq (s : Space) : s.blockUnits = s.len - 4 := by
  simp only [blockUnits, sentinel, headerUnits, firstBlock, spaceHeaderUnits]
  omega

/-- Setting a space up writes the size word of one free block. -/
theorem format_writes_free {nextSpace : Nat} (hnext : nextSpace < wordLimit) (m : Memory) : ∃ m',
    s.format nextSpace m = (.ok (s.len - 4), m') ∧ s.sizeAt m' firstBlock = ⟨s.len - 4⟩ := by
  obtain ⟨m', hrun, hsound, -⟩ := s.format_eq hnext m
  rw [← s.blockUnits_eq]
  exact ⟨m', hrun, congrArg BlockSize.mk (hsound.chain.2.2.2.1.trans (Cell.word_free _))⟩

end Space

/-- Except at the overlong lengths, a length passes the check exactly if a space can be so long and
its block can be written; that block then reads back as free and with its units. Setting up a space
of that length writes this block. -/
theorem checkLength_fits (base : Nat) (hlen : len ∉ overlongSpaces) :
    (checkLength base len = .ok () ↔ minSpaceUnits ≤ len ∧ len - 4 ≤ maxBlockUnits)
      ∧ (checkLength base len = .ok () → BlockSize.ofFree (len - 4) = .ok ⟨len - 4⟩
        ∧ (⟨len - 4⟩ : BlockSize).used = false ∧ (⟨len - 4⟩ : BlockSize).units = len - 4)
      ∧ ∀ s : Space, s.len = len → ∀ m nextSpace, nextSpace < wordLimit → ∃ m',
        s.format nextSpace m = (.ok (len - 4), m') ∧ s.sizeAt m' firstBlock = ⟨len - 4⟩ := by
  have hiff : checkLength base len = .ok () ↔ minSpaceUnits ≤ len ∧ len - 4 ≤ maxBlockUnits := by
    rw [checkLength_eq_ok_iff]
    simp only [overlongSpaces, List.mem_cons, List.not_mem_nil, or_false, minSpaceUnits,
      spaceHeaderUnits, headerUnits, maxBlockUnits, usedBit] at *
    omega
  refine ⟨hiff, fun hok => ?_, ?_⟩
  · have hmax := (hiff.1 hok).2
    exact ⟨BlockSize.ofFree_of_le hmax, BlockSize.used_free hmax, BlockSize.units_free hmax⟩
  · rintro s rfl m nextSpace hnext
    exact s.format_writes_free hnext m

/-- The longest length whose block fits, and a space of 64 KiB set up over any memory. -/
theorem checkLength_fits_longest :
    (0x8000000000000003 ∉ overlongSpaces ∧ checkLength 0x100000 0x8000000000000003 = .ok ()
      ∧ BlockSize.ofFree maxBlockUnits = .ok ⟨maxBlockUnits⟩
      ∧ (⟨maxBlockUnits⟩ : BlockSize).used = false
      ∧ (⟨maxBlockUnits⟩ : BlockSize).units = maxBlockUnits)
    ∧ 0x2000 ∉ overlongSpaces ∧ ∃ s : Space, s.base = 0x100000 ∧ s.len = 0x2000 ∧ ∀ m, ∃ m',
      s.format 0 m = (.ok 0x1FFC, m') ∧ s.sizeAt m' firstBlock = ⟨0x1FFC⟩ := by
  have hlen : 0x8000000000000003 ∉ overlongSpaces := by decide
  have hfits := checkLength_fits 0x100000 hlen
  have hok := hfits.1.2 (by decide)
  have hlen' : 0x2000 ∉ overlongSpaces := by decide
  refine ⟨⟨hlen, hok, hfits.2.1 hok⟩, hlen', ?_⟩
  have hformat := (checkLength_fits 0x100000 hlen').2.2
  let s : Space := ⟨⟨0x100000, 0x2000, by decide, by decide⟩, by decide⟩
  exact ⟨s, rfl, rfl, fun m => hformat s rfl m 0 (by decide)⟩

/-- The shortest overlong space passes the check, and its block cannot be written. -/
theorem checkLength_passes_overlong :
    checkLength 0x100000 0x8000000000000004 = .ok ()
      ∧ ¬ 0x8000000000000004 - 4 ≤ maxBlockUnits
      ∧ BlockSize.ofFree (0x8000000000000004 - 4) = .error .blockTooLarge :=
  ⟨rfl, by decide, rfl⟩

end PaeKernel
