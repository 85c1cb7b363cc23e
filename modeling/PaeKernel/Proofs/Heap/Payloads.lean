import Mathlib.Data.List.Pairwise
import PaeKernel.Proofs.Heap.Operations

/-!
# Payloads

The payload of a block in use is what the client of the heap may write. On a sound heap the payloads
lie apart from each other and from every unit the heap keeps its books in. A request adds one
payload to the list, a release takes one away, and neither changes the others.
-/

namespace PaeKernel

/-- The bytes of a block that its client may use. -/
@[ext] structure Payload where
  start : Nat
  bytes : Nat
  deriving DecidableEq

namespace Payload

/-- The payload has a byte at the address. -/
def Holds (p : Payload) (address : Nat) : Prop :=
  p.start ≤ address ∧ address < p.start + p.bytes

instance (p : Payload) (address : Nat) : Decidable (p.Holds address) :=
  inferInstanceAs (Decidable (_ ∧ _))

/-- The payloads share no byte. -/
def Apart (p q : Payload) : Prop := p.start + p.bytes ≤ q.start ∨ q.start + q.bytes ≤ p.start

theorem Apart.symm {p q : Payload} (h : p.Apart q) : q.Apart p := Or.symm h

end Payload

namespace Cell

variable {index : Nat} {cells : List Cell} {u : Nat × Nat}

theorem inUse_layOut (prev : Option Nat) : ((layOut index prev cells).filter Block.used).map
    (fun b => (b.index, b.units)) = inUse index cells := by
  induction cells generalizing index prev with
  | nil => rfl
  | cons c rest ih =>
    rw [layOut, inUse, ← ih (some index), List.filter_cons]
    by_cases h : c.used = true
    · rw [if_pos h, if_pos h]
      rfl
    · rw [if_neg h, if_neg h]
      rfl

theorem inUse_bounds (h : u ∈ inUse index cells) :
    index ≤ u.1 ∧ u.1 + u.2 ≤ index + total cells := by
  induction cells generalizing index with
  | nil => cases h
  | cons c rest ih =>
    rw [inUse, List.mem_append] at h
    rw [total_cons]
    rcases h with h | h
    · split at h
      · obtain rfl := List.mem_singleton.1 h
        exact ⟨Nat.le_refl _, by simp only; omega⟩
      · cases h
    · have := ih h
      omega

theorem pairwise_inUse : (inUse index cells).Pairwise fun u v => u.1 + u.2 ≤ v.1 := by
  induction cells generalizing index with
  | nil => exact List.Pairwise.nil
  | cons c rest ih =>
    rw [inUse]
    split
    · exact List.pairwise_cons.2 ⟨fun v hv => (inUse_bounds hv).1, ih⟩
    · exact ih

end Cell

namespace Space

variable {s t : Space} {m m' : Memory} {nextBase : Nat} {cells : List Cell} {q : Payload}
  {P : Nat → Prop}

/-- The payload of a block in the space. -/
def payloadOf (s : Space) (index units : Nat) : Payload :=
  ⟨s.addrOf (index + headerUnits), (units - headerUnits) * unitSize⟩

/-- The payloads of the blocks in use. -/
def payloads (s : Space) (m : Memory) : List Payload :=
  ((s.blocks m).filter Block.used).map fun b => s.payloadOf b.index b.units

/-- The unit is no client's: it belongs to the header of the space, to its closing zeros or to the
header of a block. -/
def Bookkeeping (s : Space) (m : Memory) (j : Nat) : Prop :=
  j < firstBlock ∨ s.sentinel ≤ j ∨ ∃ b ∈ s.blocks m, j = b.index ∨ j = b.index + 1

/-- The payloads of cells in use that fill the space. -/
def cellPayloads (s : Space) (cells : List Cell) : List Payload :=
  (Cell.inUse firstBlock cells).map fun u => s.payloadOf u.1 u.2

theorem mem_payloads : q ∈ s.payloads m ↔
    ∃ b ∈ s.blocks m, b.used = true ∧ s.payloadOf b.index b.units = q := by
  simp [payloads, and_assoc]

theorem Sound.payloads_eq (h : s.Sound m nextBase cells) : s.payloads m = s.cellPayloads cells := by
  rw [payloads, cellPayloads, blocks_of_sound h, ← Cell.inUse_layOut none, List.map_map]
  rfl

theorem Sound.exists_cell (h : s.Sound m nextBase cells) (hq : q ∈ s.payloads m) :
    ∃ pre c post, cells = pre ++ c :: post ∧ c.used = true
      ∧ q = s.payloadOf (firstBlock + Cell.total pre) c.units := by
  obtain ⟨b, hb, hused, rfl⟩ := mem_payloads.1 hq
  rw [blocks_of_sound h] at hb
  obtain ⟨pre, c, post, rfl, rfl⟩ := Cell.mem_layOut.1 hb
  exact ⟨pre, c, post, rfl, hused, rfl⟩

/-- A payload lies in the block area of its space and starts at a unit. -/
theorem Sound.payload_bounds (h : s.Sound m nextBase cells) (hq : q ∈ s.payloads m) :
    s.addrOf firstBlock ≤ q.start ∧ q.start + q.bytes ≤ s.addrOf s.sentinel
      ∧ q.start % unitSize = 0 := by
  obtain ⟨pre, c, post, rfl, -, rfl⟩ := h.exists_cell hq
  have hc : headerUnits ≤ c.units := h.long c (by simp)
  have hfull := h.full
  have haligned := s.aligned
  simp only [Cell.total_append, Cell.total_cons] at hfull
  simp only [payloadOf, addrOf, unitSize, headerUnits] at *
  omega

theorem Sound.pairwise_payloads (h : s.Sound m nextBase cells) :
    (s.payloads m).Pairwise Payload.Apart := by
  rw [h.payloads_eq, cellPayloads, List.pairwise_map]
  refine Cell.pairwise_inUse.imp fun {u v} huv => .inl ?_
  simp only [payloadOf, addrOf, unitSize, headerUnits]
  omega

/-- A byte of a payload lies in a unit past the header of the block. -/
theorem exists_unit_of_holds {index units address : Nat} (h : (s.payloadOf index units).Holds address) :
    ∃ k, index + headerUnits ≤ k ∧ k < index + units ∧ address / 8 = s.addrOf k / 8 := by
  obtain ⟨hlow, hhigh⟩ := h
  have haligned := s.aligned
  refine ⟨(address - s.base) / 8, ?_⟩
  rw [addrOf_div]
  simp only [payloadOf, addrOf, unitSize, headerUnits] at *
  omega

theorem Sound.div_ne_of_holds (h : s.Sound m nextBase cells) (hq : q ∈ s.payloads m) {j : Nat}
    (hj : s.Bookkeeping m j) {address : Nat} (hholds : q.Holds address) :
    address / 8 ≠ s.addrOf j / 8 := by
  obtain ⟨pre, c, post, rfl, -, rfl⟩ := h.exists_cell hq
  obtain ⟨k, hlow, hhigh, hk⟩ := exists_unit_of_holds hholds
  have hfull := h.full
  simp only [Cell.total_append, Cell.total_cons] at hfull
  have hne : k ≠ j := by
    rintro rfl
    rcases hj with hj | hj | ⟨b, hb, hj⟩
    · omega
    · omega
    · rw [blocks_of_sound h] at hb
      obtain ⟨pre', c', post', hcells, rfl⟩ := Cell.mem_layOut.1 hb
      exact Cell.not_headerUnit_of_payload h.long hlow hhigh ⟨pre', c', post', hcells, hj⟩
  rw [hk, addrOf_div, addrOf_div]
  omega

theorem Sound.bookkeeping_of_headerUnit (h : s.Sound m nextBase cells) {j : Nat}
    (hj : Cell.HeaderUnit cells j) : s.Bookkeeping m j := by
  obtain ⟨pre, c, post, hcells, hj⟩ := hj
  refine .inr (.inr ⟨⟨firstBlock + Cell.total pre, c.units, c.used,
    Cell.lastIndex firstBlock none pre⟩, ?_, hj⟩)
  rw [blocks_of_sound h]
  exact Cell.mem_layOut.2 ⟨pre, c, post, hcells, rfl⟩

/-- Units without bookkeeping are free for any use. -/
theorem Sound.of_bookkeeping (h : s.Sound m nextBase cells)
    (hw : ∀ j, s.Bookkeeping m j → j < s.len → s.word m' j = s.word m j) :
    s.Sound m' nextBase cells := by
  have hheader : ∀ j, Cell.HeaderUnit cells j → s.word m' j = s.word m j := by
    intro j hj
    have hbounds := hj.bounds h.long
    have hfull := h.full
    have hsen := s.sentinel_add
    exact hw j (h.bookkeeping_of_headerUnit hj) (by omega)
  refine h.replace (h.headers.transport ?_) h.full h.apart ?_
  · intro b hb
    obtain ⟨pre, c, post, hcells, rfl⟩ := Cell.mem_layOut.1 hb
    exact ⟨hheader _ ⟨pre, c, post, hcells, .inl rfl⟩, hheader _ ⟨pre, c, post, hcells, .inr rfl⟩⟩
  · intro j hj hlt
    exact hw j (hj.imp_right .inl) hlt

end Space

namespace Arena

variable {a a' : Arena} {m : Memory} {spaces : List Space} {cells : List (List Cell)} {s t : Space}
  {p : Spot} {q : Payload} {units : Nat}

/-- The payloads of all blocks in use. -/
def payloads (a : Arena) : List Payload := a.heap.spaces.flatMap (·.payloads a.memory)

/-- The payloads of cells in use that fill the spaces. -/
def cellPayloads (spaces : List Space) (cells : List (List Cell)) : List Payload :=
  (List.zipWith Space.cellPayloads spaces cells).flatten

theorem SpacesSound.payloads_eq (h : SpacesSound m spaces cells) :
    spaces.flatMap (·.payloads m) = cellPayloads spaces cells := by
  induction spaces generalizing cells with
  | nil => rfl
  | cons s rest ih =>
    cases cells with
    | nil => exact h.elim
    | cons c more =>
      rw [List.flatMap_cons, h.1.payloads_eq, ih h.2]
      rfl

theorem cellPayloads_spot (p : Spot) (own : List Cell) : cellPayloads p.spaces (p.replace own)
    = cellPayloads p.before p.cellsBefore
      ++ (p.space.cellPayloads own ++ cellPayloads p.after p.cellsAfter) := by
  simp [cellPayloads, Spot.spaces, Spot.replace, List.zipWith_append p.length_eq]

/-! ### Where payloads lie -/

theorem Apart.eq_or_apart (h : Apart spaces) (hs : s ∈ spaces) (ht : t ∈ spaces) :
    s = t ∨ s.toExtent.Apart t.toExtent := by
  by_cases hst : s = t
  · exact .inl hst
  · rw [Apart, List.pairwise_map] at h
    have : Std.Symm fun s t : Space => s.toExtent.Apart t.toExtent := ⟨fun _ _ hxy => hxy.symm⟩
    exact .inr (h.forall hs ht hst)

theorem SpacesSound.exists_sound (h : SpacesSound m spaces cells) (hs : s ∈ spaces) :
    ∃ nextBase own, s.Sound m nextBase own := by
  obtain ⟨before, after, cb, own, ca, rfl, rfl, hlen⟩ := h.exists_split hs
  exact ⟨_, own, h.middle hlen⟩

/-- A payload belongs to a cell in use at some place. -/
theorem Sound.exists_spot_of_payload (h : a.Sound cells) (hq : q ∈ a.payloads) :
    ∃ p : Spot, p.spaces = a.heap.spaces ∧ p.cells = cells ∧ p.cell.used = true
      ∧ p.space.payloadOf p.block.index p.cell.units = q := by
  obtain ⟨s, hs, hq⟩ := List.mem_flatMap.1 hq
  obtain ⟨b, hb, hused, rfl⟩ := Space.mem_payloads.1 hq
  obtain ⟨p, hspaces, hcells, rfl, rfl⟩ := h.spaces.exists_spot hs hb
  exact ⟨p, hspaces, hcells, hused, rfl⟩

theorem Sound.pairwise_payloads (h : a.Sound cells) (hap : Apart a.heap.spaces) :
    a.payloads.Pairwise Payload.Apart := by
  rw [Apart, List.pairwise_map] at hap
  rw [payloads, List.pairwise_flatMap]
  refine ⟨?_, List.Pairwise.imp_of_mem ?_ hap⟩
  · intro s hs
    obtain ⟨_, _, hsound⟩ := h.spaces.exists_sound hs
    exact hsound.pairwise_payloads
  · intro s t hs ht hst x hx y hy
    obtain ⟨_, _, hsoundS⟩ := h.spaces.exists_sound hs
    obtain ⟨_, _, hsoundT⟩ := h.spaces.exists_sound ht
    have hx' := hsoundS.payload_bounds hx
    have hy' := hsoundT.payload_bounds hy
    have hsenS := Space.sentinel_add s
    have hsenT := Space.sentinel_add t
    simp only [Extent.Apart, Payload.Apart, Space.addrOf, unitSize] at *
    omega

/-- No byte of a payload lies in a unit that any space keeps its books in. -/
theorem Sound.div_ne_of_holds (h : a.Sound cells) (hap : Apart a.heap.spaces)
    (hq : q ∈ a.payloads) (ht : t ∈ a.heap.spaces) {j : Nat} (hj : t.Bookkeeping a.memory j)
    (hlt : j < t.len) {address : Nat} (hholds : q.Holds address) :
    address / 8 ≠ t.addrOf j / 8 := by
  obtain ⟨s, hs, hq⟩ := List.mem_flatMap.1 hq
  obtain ⟨_, _, hsound⟩ := h.spaces.exists_sound hs
  rcases hap.eq_or_apart hs ht with rfl | hst
  · exact hsound.div_ne_of_holds hq hj hholds
  · obtain ⟨pre, c, post, rfl, -, rfl⟩ := hsound.exists_cell hq
    obtain ⟨k, hlow, hhigh, hk⟩ := Space.exists_unit_of_holds hholds
    have hfull := hsound.full
    have hsen := s.sentinel_add
    simp only [Cell.total_append, Cell.total_cons] at hfull
    rw [hk]
    exact Space.addrOf_div_ne_of_apart hst (by omega) hlt

/-! ### What a request and a release do to the list of payloads -/

/-- The payload handed out has the bytes asked for and at least one. -/
theorem Served.le_bytes (hserved : Served a a' p units) {size : Nat}
    (hunits : unitsFor size = some units) :
    max size 1 ≤ (p.space.payloadOf p.block.index (Cell.granted p.cell.units units)).bytes := by
  obtain ⟨hsize, -⟩ := unitsFor_eq_some_iff.1 hunits
  have hle := Cell.le_granted hserved.fits
  simp only [Space.payloadOf, headerUnits, unitSize]
  omega

theorem Served.payloads_perm (h : a.Sound p.cells) (hserved : Served a a' p units) :
    a'.payloads.Perm
      (p.space.payloadOf p.block.index (Cell.granted p.cell.units units) :: a.payloads) := by
  have hold : a.payloads = cellPayloads p.spaces p.cells := by
    rw [payloads, h.spaces.payloads_eq, hserved.spaces]
  have hnew : a'.payloads = cellPayloads p.spaces
      (p.replace (p.pre ++ (Cell.carve p.cell.units units ++ p.post))) := by
    rw [payloads, hserved.sound.spaces.payloads_eq, hserved.kept, hserved.spaces]
  rw [hold, hnew, Spot.cells, cellPayloads_spot, cellPayloads_spot]
  simp only [Space.cellPayloads, Cell.inUse_append, Cell.inUse_carve, Cell.inUse,
    Cell.total_carve hserved.fits, hserved.unused, Bool.false_eq_true, if_false, List.nil_append,
    List.map_append, List.map_cons, List.append_assoc, List.cons_append]
  rw [← List.append_assoc, ← List.append_assoc]
  exact List.perm_middle

theorem Released.payloads_perm (h : a.Sound p.cells) (hreleased : Released a a' p) :
    a.payloads.Perm (p.space.payloadOf p.block.index p.cell.units :: a'.payloads) := by
  have hold : a.payloads = cellPayloads p.spaces p.cells := by
    rw [payloads, h.spaces.payloads_eq, hreleased.spaces]
  have hnew : a'.payloads
      = cellPayloads p.spaces (p.replace (Cell.merge p.pre p.cell.units p.post)) := by
    rw [payloads, hreleased.sound.spaces.payloads_eq, hreleased.kept, hreleased.spaces]
  rw [hold, hnew, Spot.cells, cellPayloads_spot, cellPayloads_spot]
  simp only [Space.cellPayloads, Cell.inUse_append, Cell.inUse_merge, Cell.inUse, hreleased.used,
    if_true, List.map_append, List.map_cons, List.append_assoc, List.nil_append,
    List.cons_append]
  rw [← List.append_assoc, ← List.append_assoc]
  exact List.perm_middle

end Arena

end PaeKernel
