import PaeKernel.Proofs.Heap.Payloads
import PaeKernel.Proofs.Heap.Walk

/-!
# What a request and a release do to the lists of blocks

`Cell.carve` and `Cell.merge` say what becomes of cells, which do not know where they lie. Here the
same is said of the blocks that a walk over the space finds: `Block.split` and `Block.merge` also
tell where the new blocks start and which block each one names as its predecessor. Blocks of other
spaces stay as they are.
-/

namespace PaeKernel

namespace Block

/-- The blocks, the first of which names another predecessor. -/
def relinked (prev : Option Nat) : List Block → List Block
  | [] => []
  | b :: rest => { b with prev } :: rest

/-- What becomes of a free block out of which so many units are taken, and of the blocks after it.
What the block has beyond them becomes a free block if that can hold a header. -/
def split (b : Block) (units : Nat) (after : List Block) : List Block :=
  if b.units - units < headerUnits then { b with used := true } :: after
  else { b with units, used := true } :: ⟨b.index + units, b.units - units, false, some b.index⟩
    :: relinked (some (b.index + units)) after

/-- A neighbour if it is free. -/
def ifFree (neighbour : Option Block) : Option Block := neighbour.bind fun n =>
  if n.used then none else some n

/-- What becomes of a block that is freed and of the blocks before and after it. The block and those
of its two neighbours that are free become one free block of all their units. -/
def merge (before : List Block) (b : Block) (after : List Block) : List Block :=
  let previous := ifFree before.getLast?
  let next := ifFree after.head?
  let first := previous.getD b
  let units := previous.elim 0 Block.units + b.units + next.elim 0 Block.units
  (if previous.isSome then before.dropLast else before) ++ { first with units, used := false }
    :: relinked (some first.index) (if next.isSome then after.tail else after)

end Block

namespace Cell

variable {index : Nat} {prev : Option Nat} {cells : List Cell}

theorem layOut_append (index : Nat) (prev : Option Nat) (pre post : List Cell) :
    layOut index prev (pre ++ post)
      = layOut index prev pre ++ layOut (index + total pre) (lastIndex index prev pre) post := by
  induction pre generalizing index prev with
  | nil => rfl
  | cons c pre ih => simp [layOut, lastIndex, ih, Nat.add_assoc]

theorem layOut_relinked (index : Nat) (prev prev' : Option Nat) (cells : List Cell) :
    layOut index prev' cells = Block.relinked prev' (layOut index prev cells) := by
  cases cells <;> rfl

/-- The blocks after cells are carved are the blocks before, one of them split. -/
theorem layOut_carve {found units : Nat} (h : units ≤ found) (post : List Cell) :
    layOut index prev (carve found units ++ post)
      = Block.split ⟨index, found, false, prev⟩ units (layOut (index + found) (some index) post) := by
  unfold carve Block.split
  by_cases hrest : found - units < headerUnits
  · rw [if_pos hrest, if_pos hrest]
    rfl
  · rw [if_neg hrest, if_neg hrest, ← layOut_relinked]
    simp only [List.cons_append, List.nil_append, layOut, Nat.add_assoc, Nat.add_sub_cancel' h]

/-- The cells joined with a free predecessor are the blocks joined with it. -/
theorem layOut_joinBack (pre : List Cell) (units : Nat) (b : Block)
    (hindex : b.index = index + total pre) (hprev : b.prev = lastIndex index prev pre) :
    let previous := Block.ifFree (layOut index prev pre).getLast?
    (if previous.isSome then (layOut index prev pre).dropLast else layOut index prev pre)
        = layOut index prev (joinBack pre units).1
      ∧ (previous.getD b).index = index + total (joinBack pre units).1
      ∧ (previous.getD b).prev = lastIndex index prev (joinBack pre units).1
      ∧ previous.elim 0 Block.units + units = (joinBack pre units).2 := by
  rcases List.eq_nil_or_concat' pre with rfl | ⟨pre, ⟨more, _ | _⟩, rfl⟩
  · exact ⟨rfl, hindex, hprev, Nat.zero_add units⟩
  · simp [joinBack_append_free, layOut_append, layOut, Block.ifFree]
  · rw [joinBack_append_used]
    simp [hindex, hprev, layOut_append, layOut, Block.ifFree]

/-- The cells joined with a free successor are the blocks joined with it. -/
theorem layOut_joinNext (index units : Nat) (post : List Cell) (prev' : Option Nat) :
    let after := layOut (index + units) prev' post
    let next := Block.ifFree after.head?
    units + next.elim 0 Block.units = (joinNext units post).1
      ∧ Block.relinked (some index) (if next.isSome then after.tail else after)
        = layOut (index + (joinNext units post).1) (some index) (joinNext units post).2 := by
  rcases post with _ | ⟨⟨more, _ | _⟩, rest⟩
  · exact ⟨rfl, rfl⟩
  · refine ⟨rfl, ?_⟩
    simp only [joinNext, ← Nat.add_assoc]
    exact (layOut_relinked _ _ _ _).symm
  · exact ⟨rfl, rfl⟩

/-- The blocks after cells are merged are the blocks before, merged. -/
theorem layOut_merge (pre : List Cell) (units : Nat) (used : Bool) (post : List Cell) :
    layOut index prev (merge pre units post)
      = Block.merge (layOut index prev pre) ⟨index + total pre, units, used, lastIndex index prev pre⟩
          (layOut (index + total pre + units) (some (index + total pre)) post) := by
  have hsum := total_joinBack pre units
  obtain ⟨hfront, hindex, hprev, hunits⟩ := layOut_joinBack pre units
    ⟨index + total pre, units, used, lastIndex index prev pre⟩ rfl rfl
  obtain ⟨hwhole, hback⟩ := layOut_joinNext (index + total (joinBack pre units).1)
    (joinBack pre units).2 post (some (index + total pre))
  have hend : index + total (joinBack pre units).1 + (joinBack pre units).2
      = index + total pre + units := by omega
  rw [hend] at hwhole hback
  rw [merge, layOut_append, layOut, Block.merge]
  simp only [hfront, hindex, hprev, hunits, hwhole, hback]

end Cell

namespace Arena

variable {a a' : Arena} {m m' : Memory} {spaces : List Space} {s t : Space} {p : Spot} {units : Nat}

/-- Blocks of other spaces stay when only words of one space change. -/
theorem Apart.blocks_eq (hap : Apart spaces) (hs : s ∈ spaces) (ht : t ∈ spaces) (hne : t ≠ s)
    {P : Nat → Prop} (hchange : s.ChangesOnly P m m') : t.blocks m' = t.blocks m := by
  rcases hap.eq_or_apart hs ht with rfl | hst
  · exact absurd rfl hne
  · exact Space.blocks_congr fun _ hj => hchange.word_eq_of_apart hst hj

theorem SpacesSound.blocks_spot (h : SpacesSound m p.spaces p.cells) :
    p.space.blocks m = Cell.layOut firstBlock none p.pre
      ++ p.block :: Cell.layOut (p.block.index + p.block.units) (some p.block.index) p.post := by
  rw [Space.blocks_of_sound h.spot, Cell.layOut_append]
  rfl

namespace Served

theorem blocks (h : a.Sound p.cells) (hserved : Served a a' p units) : ∃ before after,
    p.space.blocks a.memory = before ++ p.block :: after
      ∧ p.space.blocks a'.memory = before ++ p.block.split units after := by
  have hold : SpacesSound a.memory p.spaces p.cells := hserved.spaces ▸ h.spaces
  have hnew : p.space.Sound a'.memory p.nextBase _ :=
    SpacesSound.middle ((hserved.kept.trans hserved.spaces.symm) ▸ hserved.sound.spaces) p.length_eq
  refine ⟨_, _, hold.blocks_spot, ?_⟩
  rw [Space.blocks_of_sound hnew, Cell.layOut_append, Cell.layOut_carve hserved.fits]
  simp only [Spot.block, hserved.unused]

/-- The units granted go from the free ones to those in use. -/
theorem counters (h : a.Sound p.cells) (hserved : Served a a' p units) :
    a'.heap.freeUnits + Cell.granted p.cell.units units = a.heap.freeUnits
      ∧ a'.heap.usedUnits = a.heap.usedUnits + Cell.granted p.cell.units units
      ∧ a'.heap.capacityUnits = a.heap.capacityUnits := by
  have hgranted := Cell.granted_le hserved.fits
  have hfree := h.freeUnits_spot
  have hused := h.usedUnits_spot
  have hfree' := hserved.sound.free
  have hused' := hserved.sound.used
  rw [if_neg (hserved.unused ▸ Bool.false_ne_true)] at hfree hused
  rw [Spot.freeUnits_carve] at hfree'
  rw [Spot.usedUnits_carve] at hused'
  refine ⟨by omega, by omega, ?_⟩
  rw [hserved.sound.capacity, h.capacity, hserved.kept]

end Served

namespace Released

theorem blocks (h : a.Sound p.cells) (hreleased : Released a a' p) : ∃ before after,
    p.space.blocks a.memory = before ++ p.block :: after
      ∧ p.space.blocks a'.memory = Block.merge before p.block after := by
  have hold : SpacesSound a.memory p.spaces p.cells := hreleased.spaces ▸ h.spaces
  have hnew : p.space.Sound a'.memory p.nextBase _ :=
    SpacesSound.middle ((hreleased.kept.trans hreleased.spaces.symm) ▸ hreleased.sound.spaces)
      p.length_eq
  refine ⟨_, _, hold.blocks_spot, ?_⟩
  rw [Space.blocks_of_sound hnew, Cell.layOut_merge p.pre p.cell.units p.cell.used p.post]
  rfl

/-- The units of the block go from those in use to the free ones. -/
theorem counters (h : a.Sound p.cells) (hreleased : Released a a' p) :
    a'.heap.freeUnits = a.heap.freeUnits + p.cell.units
      ∧ a'.heap.usedUnits + p.cell.units = a.heap.usedUnits
      ∧ a'.heap.capacityUnits = a.heap.capacityUnits := by
  have hfree := h.freeUnits_spot
  have hused := h.usedUnits_spot
  have hfree' := hreleased.sound.free
  have hused' := hreleased.sound.used
  rw [if_pos hreleased.used] at hfree hused
  rw [Spot.freeUnits_replace, Cell.freeUnits_merge] at hfree'
  rw [Spot.usedUnits_replace, Cell.usedUnits_merge] at hused'
  refine ⟨by omega, by omega, ?_⟩
  rw [hreleased.sound.capacity, h.capacity, hreleased.kept]

end Released

end Arena

end PaeKernel
