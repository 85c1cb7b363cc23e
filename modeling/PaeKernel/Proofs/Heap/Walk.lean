import PaeKernel.Proofs.Heap.Steps

/-!
# The walk over memory of any contents

`Space.blocks` is a view: it reads words without asking whether they lie in the space. `Space.walk`
is the same walk with every unit read through `load`, and `Space.walk_eq` says that it never stops at
a unit outside, whatever the headers hold. The blocks found lie one after another in the block area
(`Space.bounds_of_mem_blocksFrom`, `Space.total_cellsFrom_le`), and no word outside the space has a
say in them (`Space.blocksFrom_congr`).
-/

namespace PaeKernel

/-- What a block is apart from its place. -/
def Block.cell (b : Block) : Cell := ⟨b.units, b.used⟩

/-- A word is its units and its mark. -/
theorem Cell.word_sizeAt {w : Nat} (h : w < wordLimit) :
    Cell.word ⟨(⟨w⟩ : BlockSize).units, (⟨w⟩ : BlockSize).used⟩ = w := by
  simp only [Cell.word, BlockSize.units, BlockSize.used, usedBit, wordLimit] at *
  by_cases hbit : w / 0x8000000000000000 % 2 = 1
  · simp only [hbit, beq_self_eq_true, Bool.toNat_true]
    omega
  · simp only [beq_eq_false_iff_ne.2 hbit, Bool.toNat_false]
    omega

namespace Space

variable {s : Space} {m m' : Memory} {index : Nat} {b : Block}

/-- The block that the header at an index spells. -/
def blockAt (s : Space) (m : Memory) (index : Nat) : Block where
  index := index
  units := (s.sizeAt m index).units
  used := (s.sizeAt m index).used
  prev := s.prevAt m index

/-- The cells of the blocks from an index on. -/
def cellsFrom (s : Space) (m : Memory) (index : Nat) : List Cell :=
  (s.blocksFrom m index).map Block.cell

/-- The blocks from an index on, with every unit read through `load`. -/
def walk (s : Space) (index : Nat) : Exec Memory (List Block) := do
  if _hroom : index + headerUnits ≤ s.sentinel then
    let size ← s.size index
    if _hfits : headerUnits ≤ size.units ∧ index + size.units ≤ s.sentinel then
      let prev ← s.prev index
      return { index, units := size.units, used := size.used, prev }
        :: (← walk s (index + size.units))
    else return []
  else return []
termination_by s.sentinel - index
decreasing_by simp only [headerUnits] at *; omega

/-- A header with room before the closing zeros lies in the space. -/
theorem header_lt_of_room (hroom : index + headerUnits ≤ s.sentinel) : index + 1 < s.len := by
  have hsen := s.sentinel_add
  simp only [headerUnits] at hroom
  omega

theorem blocksFrom_cons (hroom : index + headerUnits ≤ s.sentinel)
    (hfits : headerUnits ≤ (s.sizeAt m index).units
      ∧ index + (s.sizeAt m index).units ≤ s.sentinel) :
    s.blocksFrom m index
      = s.blockAt m index :: s.blocksFrom m (index + (s.sizeAt m index).units) := by
  rw [blocksFrom, if_pos hroom, if_pos hfits]
  rfl

theorem blocksFrom_of_unfit (hfits : ¬ (headerUnits ≤ (s.sizeAt m index).units
    ∧ index + (s.sizeAt m index).units ≤ s.sentinel)) : s.blocksFrom m index = [] := by
  rw [blocksFrom, if_neg hfits, ite_self]

theorem blocksFrom_of_no_room (hroom : ¬ index + headerUnits ≤ s.sentinel) :
    s.blocksFrom m index = [] := by
  rw [blocksFrom, if_neg hroom]

/-- The walk with checked access never leaves the space. -/
theorem walk_eq (s : Space) (m : Memory) (index : Nat) :
    s.walk index m = (.ok (s.blocksFrom m index), m) := by
  fun_induction blocksFrom s m index with
  | case1 index hroom hfits ih =>
    have hlt := header_lt_of_room hroom
    rw [walk, dif_pos hroom, Exec.bind_of_ok (size_of_lt hlt m), dif_pos hfits,
      Exec.bind_of_ok (prev_of_lt (Nat.lt_of_succ_lt hlt) m), Exec.bind_of_ok ih]
    rfl
  | case2 index hroom hfits =>
    rw [walk, dif_pos hroom, Exec.bind_of_ok (size_of_lt (header_lt_of_room hroom) m),
      dif_neg hfits]
    rfl
  | case3 index hroom =>
    rw [walk, dif_neg hroom]
    rfl

/-- Every block has room for its header and ends before the closing zeros. -/
theorem bounds_of_mem_blocksFrom (h : b ∈ s.blocksFrom m index) :
    index ≤ b.index ∧ headerUnits ≤ b.units ∧ b.stop ≤ s.sentinel := by
  fun_induction blocksFrom s m index with
  | case1 index hroom hfits ih =>
    rcases List.mem_cons.1 h with rfl | h
    · exact ⟨Nat.le_refl _, hfits⟩
    · obtain ⟨hlow, hbounds⟩ := ih h
      exact ⟨by omega, hbounds⟩
  | case2 index hroom hfits => cases h
  | case3 index hroom => cases h

/-- A block of the walk is what the header at its index spells. -/
theorem eq_blockAt_of_mem (h : b ∈ s.blocksFrom m index) : b = s.blockAt m b.index := by
  fun_induction blocksFrom s m index with
  | case1 index hroom hfits ih =>
    rcases List.mem_cons.1 h with rfl | h
    · rfl
    · exact ih h
  | case2 index hroom hfits => cases h
  | case3 index hroom => cases h

/-- Blocks are found in the order of their addresses. -/
theorem pairwise_blocks (s : Space) (m : Memory) :
    (s.blocks m).Pairwise fun b c => b.stop ≤ c.index := by
  unfold blocks
  fun_induction blocksFrom s m firstBlock with
  | case1 index hroom hfits ih =>
    exact List.pairwise_cons.2 ⟨fun c hc => (bounds_of_mem_blocksFrom hc).1, ih⟩
  | case2 index hroom hfits => exact List.Pairwise.nil
  | case3 index hroom => exact List.Pairwise.nil

theorem total_cellsFrom_le (hindex : index ≤ s.sentinel) :
    index + Cell.total (s.cellsFrom m index) ≤ s.sentinel := by
  unfold cellsFrom
  fun_induction blocksFrom s m index with
  | case1 index hroom hfits ih =>
    have hrest := ih hfits.2
    simp only [List.map_cons, Cell.total_cons, Block.cell]
    omega
  | case2 index hroom hfits => exact hindex
  | case3 index hroom => exact hindex

/-! ### Words outside the space have no say -/

theorem sizeAt_congr (hsame : ∀ j < s.len, s.word m' j = s.word m j) (h : index + 1 < s.len) :
    s.sizeAt m' index = s.sizeAt m index := by
  rw [sizeAt, hsame _ h, sizeAt]

theorem prevAt_congr (hsame : ∀ j < s.len, s.word m' j = s.word m j) (h : index < s.len) :
    s.prevAt m' index = s.prevAt m index := by
  rw [prevAt, hsame _ h, prevAt]

theorem blocksFrom_congr (hsame : ∀ j < s.len, s.word m' j = s.word m j) (index : Nat) :
    s.blocksFrom m' index = s.blocksFrom m index := by
  fun_induction blocksFrom s m index with
  | case1 index hroom hfits ih =>
    have hlt := header_lt_of_room hroom
    have hsize := sizeAt_congr hsame hlt
    rw [blocksFrom, if_pos hroom, hsize, if_pos hfits, ih,
      prevAt_congr hsame (Nat.lt_of_succ_lt hlt)]
  | case2 index hroom hfits =>
    rw [blocksFrom, if_pos hroom, sizeAt_congr hsame (header_lt_of_room hroom), if_neg hfits]
  | case3 index hroom => rw [blocksFrom, if_neg hroom]

theorem blocks_congr (hsame : ∀ j < s.len, s.word m' j = s.word m j) :
    s.blocks m' = s.blocks m :=
  blocksFrom_congr hsame firstBlock

end Space

end PaeKernel
