import PaeKernel.Proofs.Boot.Placement

/-!
# The heap range takes in every whole page

The range for the heap lies in the first free region that holds the end of the kernel image
(`MemoryMap.FirstHolding`), behind that end and before a limit. Rounding both ends inwards keeps each
whole page there is (`AddressRange.Paged.within`), and the rounded ends are out of order just if there
is none (`AddressRange.inward_lt_iff`). So the range found is the largest one, and the search is
refused only where no page is left (`MemoryMap.heapRegion_largest`).
-/

namespace PaeKernel

/-! ### Whole pages between two addresses -/

namespace AddressRange

variable {r r' : AddressRange} {low high : Nat}

/-- A run of whole pages, one at least, between two addresses. -/
structure Paged (r : AddressRange) (low high : Nat) : Prop where
  start : r.start % pageSize = 0
  stop : r.stop % pageSize = 0
  nonempty : r.start < r.stop
  above : low ≤ r.start
  below : r.stop ≤ high

/-- The run of whole pages that takes in all others between the same addresses. -/
structure Largest (r : AddressRange) (low high : Nat) : Prop extends r.Paged low high where
  widest : ∀ r' : AddressRange, r'.Paged low high → r.start ≤ r'.start ∧ r'.stop ≤ r.stop

/-- Both addresses rounded to pages, the lower one up and the higher one down. -/
def inward (low high : Nat) : AddressRange := ⟨(low + 4095) / 4096 * 4096, high / 4096 * 4096⟩

theorem Paged.within (h : r.Paged low high) :
    (inward low high).start ≤ r.start ∧ r.stop ≤ (inward low high).stop := by
  refine ⟨(pageUp_least low).2 r.start h.start h.above, ?_⟩
  obtain ⟨-, hstop, -, -, hbelow⟩ := h
  simp only [pageSize, inward] at *
  omega

theorem paged_inward (h : (inward low high).start < (inward low high).stop) :
    (inward low high).Paged low high :=
  ⟨Nat.mul_mod_left _ _, Nat.mul_mod_left _ _, h, (pageUp_least low).1, Nat.div_mul_le_self high 4096⟩

/-- What rounding leaves is the largest run, if it leaves anything. -/
theorem largest_iff : r.Largest low high
    ↔ r = inward low high ∧ (inward low high).start < (inward low high).stop := by
  constructor
  · intro h
    obtain ⟨hstart, hstop⟩ := h.within
    have hlt := Nat.lt_of_le_of_lt hstart (Nat.lt_of_lt_of_le h.nonempty hstop)
    obtain ⟨hstart', hstop'⟩ := h.widest _ (paged_inward hlt)
    exact ⟨AddressRange.ext (Nat.le_antisymm hstart' hstart) (Nat.le_antisymm hstop hstop'), hlt⟩
  · rintro ⟨rfl, hlt⟩
    exact ⟨paged_inward hlt, fun _ h => h.within⟩

/-- Rounding leaves something just if there is a whole page. -/
theorem inward_lt_iff : (inward low high).start < (inward low high).stop
    ↔ ∃ page, page % pageSize = 0 ∧ low ≤ page ∧ page + pageSize ≤ high := by
  constructor
  · intro h
    refine ⟨(inward low high).start, Nat.mul_mod_left _ _, (pageUp_least low).1, ?_⟩
    simp only [inward, pageSize] at *
    omega
  · rintro ⟨page, hpage, hlow, hhigh⟩
    have hpaged : Paged ⟨page, page + pageSize⟩ low high := by
      refine ⟨hpage, ?_, Nat.lt_add_of_pos_right (by decide), hlow, hhigh⟩
      rw [Nat.add_mod_right, hpage]
    obtain ⟨hstart, hstop⟩ := hpaged.within
    exact Nat.lt_of_le_of_lt hstart (Nat.lt_of_lt_of_le hpaged.nonempty hstop)

end AddressRange

/-- Free memory that an address lies in. -/
def Region.Holds (r : Region) (address : Nat) : Prop :=
  r.kind = .usable ∧ r.base ≤ address ∧ address < r.stop

namespace MemoryMap

variable {map : MemoryMap} {kernelEnd : Nat} {region : Region}

/-- The first free region of the map that an address lies in. -/
def FirstHolding (map : MemoryMap) (address : Nat) (region : Region) : Prop :=
  region.Holds address ∧ ∃ before after, map.regions = before ++ region :: after
    ∧ ∀ r ∈ before, ¬ r.Holds address

theorem usable_and_contains_iff (r : Region) (address : Nat) :
    (r.usable && r.contains address) = true ↔ r.Holds address := by
  simp only [Region.usable, Region.contains, Region.Holds, Bool.and_eq_true, beq_iff_eq,
    decide_eq_true_eq]

theorem find?_eq_some_iff_firstHolding :
    map.regions.find? (fun r => r.usable && r.contains kernelEnd) = some region
      ↔ map.FirstHolding kernelEnd region := by
  simp only [List.find?_eq_some_iff_append, FirstHolding, usable_and_contains_iff,
    Bool.not_eq_true', ← Bool.not_eq_true]

theorem find?_eq_none_iff_firstHolding :
    map.regions.find? (fun r => r.usable && r.contains kernelEnd) = none
      ↔ ¬ ∃ region, map.FirstHolding kernelEnd region := by
  rw [Option.eq_none_iff_forall_ne_some, not_exists]
  exact forall_congr' fun region => not_congr find?_eq_some_iff_firstHolding

/-- In the region found, the search comes to the whole pages between the two ends. -/
theorem heapRegion_of_found
    (h : map.regions.find? (fun r => r.usable && r.contains kernelEnd) = some region)
    (hend : kernelEnd + pageSize < wordLimit) (limit : Nat) :
    map.heapRegion kernelEnd limit = .ok
      (if (AddressRange.inward kernelEnd (min region.stop limit)).stop
          ≤ (AddressRange.inward kernelEnd (min region.stop limit)).start then
        .error (.noHeapRegion kernelEnd)
      else .ok (AddressRange.inward kernelEnd (min region.stop limit))) :=
  heapRegion_of_some h hend limit

/-- For every memory map and every limit, the heap gets the largest run of whole pages behind the
kernel image, in the first free region that holds its end and below the limit. It is refused just if
there is no such region or no whole page there, and nothing overflows on the way. -/
theorem heapRegion_largest (map : MemoryMap) {kernelEnd : Nat}
    (hend : kernelEnd + pageSize < wordLimit) (limit : Nat) :
    (map.heapRegion kernelEnd limit = .ok (.error (.noHeapRegion kernelEnd))
      ∨ ∃ range, map.heapRegion kernelEnd limit = .ok (.ok range))
    ∧ (map.heapRegion kernelEnd limit = .ok (.error (.noHeapRegion kernelEnd))
      ↔ ¬ ∃ region, map.FirstHolding kernelEnd region ∧ ∃ page, page % pageSize = 0
        ∧ kernelEnd ≤ page ∧ page + pageSize ≤ min region.stop limit)
    ∧ ∀ range, map.heapRegion kernelEnd limit = .ok (.ok range)
      ↔ ∃ region, map.FirstHolding kernelEnd region
        ∧ range.Largest kernelEnd (min region.stop limit) := by
  cases h : map.regions.find? (fun r => r.usable && r.contains kernelEnd) with
  | none =>
    rw [heapRegion_of_none h]
    rw [find?_eq_none_iff_firstHolding, not_exists] at h
    refine ⟨.inl rfl, iff_of_true rfl fun ⟨region, hfirst, _⟩ => h region hfirst, fun range => ?_⟩
    exact iff_of_false nofun fun ⟨region, hfirst, _⟩ => h region hfirst
  | some region =>
    -- the region found is the only one that comes first
    have hany (P : Region → Prop) :
        (∃ other, map.FirstHolding kernelEnd other ∧ P other) ↔ P region := by
      simp only [← find?_eq_some_iff_firstHolding, h, Option.some.injEq, exists_eq_left']
    simp only [hany, ← AddressRange.inward_lt_iff, AddressRange.largest_iff]
    rw [heapRegion_of_found h hend]
    generalize AddressRange.inward kernelEnd (min region.stop limit) = found
    by_cases hlt : found.start < found.stop
    · rw [if_neg (Nat.not_le.2 hlt)]
      refine ⟨.inr ⟨found, rfl⟩, iff_of_false nofun (not_not_intro hlt), fun range => ?_⟩
      simp only [Except.ok.injEq, hlt, and_true, eq_comm]
    · rw [if_pos (Nat.le_of_not_lt hlt)]
      exact ⟨.inl rfl, iff_of_true rfl hlt, fun range => iff_of_false nofun fun h => hlt h.2⟩

/-- Between the image and four mebibytes, in the third region of the map. -/
theorem heapRegion_largest_sample : imageEnd + pageSize < wordLimit
    ∧ sample.heapRegion imageEnd 0x400000 = .ok (.ok ⟨0x10F000, 0x400000⟩)
    ∧ ∃ region, sample.FirstHolding imageEnd region
      ∧ AddressRange.Largest ⟨0x10F000, 0x400000⟩ imageEnd (min region.stop 0x400000) := by
  have hend : imageEnd + pageSize < wordLimit := by decide
  have hrun : sample.heapRegion imageEnd 0x400000 = .ok (.ok ⟨0x10F000, 0x400000⟩) := by
    rw [heapRegion, sample, regions_ofEntries]
    rfl
  exact ⟨hend, hrun, ((heapRegion_largest sample hend 0x400000).2.2 _).1 hrun⟩

end MemoryMap

end PaeKernel
