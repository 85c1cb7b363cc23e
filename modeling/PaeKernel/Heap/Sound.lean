import PaeKernel.Heap.Audit

/-!
# Sound heaps

A sound space, said without the walk that reads it: its words spell a list of cells, one for each
block, in order and without gaps. `blocks_of_sound` says that the walk then finds these cells and
nothing else.
-/

namespace PaeKernel

/-- What a block is apart from its place. -/
@[ext] structure Cell where
  units : Nat
  used : Bool
  deriving Repr, DecidableEq

namespace Cell

/-- The size word of a block. -/
def word (c : Cell) : Nat := c.units + c.used.toNat * usedBit

/-- The blocks that cells are when they lie one after another from an index on. -/
def layOut : (index : Nat) → (prev : Option Nat) → List Cell → List Block
  | _, _, [] => []
  | index, prev, c :: rest =>
    ⟨index, c.units, c.used, prev⟩ :: layOut (index + c.units) (some index) rest

/-- The units of free cells. -/
def freeUnits : List Cell → Nat
  | [] => 0
  | c :: rest => (if c.used then 0 else c.units) + freeUnits rest

/-- The units of cells in use. -/
def usedUnits : List Cell → Nat
  | [] => 0
  | c :: rest => (if c.used then c.units else 0) + usedUnits rest

/-- No free cell is next to another one. -/
def Apart : List Cell → Prop
  | a :: b :: rest => (a.used = true ∨ b.used = true) ∧ Apart (b :: rest)
  | _ => True

theorem units_word {c : Cell} (h : c.units ≤ maxBlockUnits) :
    (⟨c.word⟩ : BlockSize).units = c.units := by
  cases hu : c.used <;> simp only [word, hu, Bool.toNat_false, Bool.toNat_true, Nat.zero_mul,
    Nat.one_mul, Nat.add_zero]
  · exact BlockSize.units_free h
  · exact BlockSize.units_used h

theorem used_word {c : Cell} (h : c.units ≤ maxBlockUnits) :
    (⟨c.word⟩ : BlockSize).used = c.used := by
  cases hu : c.used <;> simp only [word, hu, Bool.toNat_false, Bool.toNat_true, Nat.zero_mul,
    Nat.one_mul, Nat.add_zero]
  · exact BlockSize.used_free h
  · exact BlockSize.used_used h

end Cell

namespace Space

/-- The words from a unit on are the headers of these cells up to the closing zeros; the first of
them names `link` as its predecessor. -/
def Chain (s : Space) (m : Memory) : (index link : Nat) → List Cell → Prop
  | index, _, [] => index = s.sentinel
  | index, link, c :: rest =>
    headerUnits ≤ c.units ∧ index + c.units ≤ s.sentinel ∧ s.word m index = link
      ∧ s.word m (index + 1) = c.word ∧ Chain s m (index + c.units) (s.addrOf index) rest

/-- The words of a space that holds these cells and is followed by a space at `nextBase`. -/
structure Sound (s : Space) (m : Memory) (nextBase : Nat) (cells : List Cell) : Prop where
  length : s.word m 1 = s.len
  next : s.word m 0 = nextBase
  closing : s.word m s.sentinel = 0 ∧ s.word m (s.sentinel + 1) = 0
  chain : s.Chain m firstBlock 0 cells
  apart : Cell.Apart cells

theorem len_lt (s : Space) : s.len < 0x2000000000000000 := by
  have := s.bounded
  simp only [unitSize, wordLimit] at this; omega

theorem prevAt_of_word {s : Space} {m : Memory} {index link : Nat} {prev : Option Nat}
    (h : s.word m index = link)
    (hl : prev = none ∧ link = 0 ∨ ∃ p, prev = some p ∧ 2 ≤ p ∧ p < s.len ∧ link = s.addrOf p) :
    s.prevAt m index = prev := by
  rw [prevAt, h]
  rcases hl with ⟨rfl, rfl⟩ | ⟨p, rfl, hp, hlen, rfl⟩
  · rfl
  · rw [if_neg (by simp only [addrOf, unitSize]; omega), indexOf_addrOf s hlen]

theorem blocksFrom_of_chain {s : Space} {m : Memory} {cells : List Cell} {index link : Nat}
    {prev : Option Nat} (hi : 2 ≤ index) (h : s.Chain m index link cells)
    (hl : prev = none ∧ link = 0 ∨ ∃ p, prev = some p ∧ 2 ≤ p ∧ p < s.len ∧ link = s.addrOf p) :
    s.blocksFrom m index = Cell.layOut index prev cells := by
  induction cells generalizing index link prev with
  | nil =>
    have hs : index = s.sentinel := h
    rw [blocksFrom, if_neg (by simp only [headerUnits]; omega)]; rfl
  | cons c rest ih =>
    obtain ⟨htwo, hend, hlink, hsize, hrest⟩ := h
    have hlen := s.len_lt
    have hsen := s.sentinel_add
    have hmax : c.units ≤ maxBlockUnits := by simp only [maxBlockUnits, usedBit]; omega
    simp only [headerUnits] at htwo
    have hsz : s.sizeAt m index = ⟨c.word⟩ := by rw [sizeAt, hsize]
    have hprev := prevAt_of_word hlink hl
    rw [blocksFrom, hsz, Cell.units_word hmax, Cell.used_word hmax, hprev,
      if_pos (by simp only [headerUnits]; omega), if_pos ⟨htwo, hend⟩,
      ih (by omega) hrest (.inr ⟨index, rfl, hi, by omega, rfl⟩)]
    rfl

theorem blocks_of_sound {s : Space} {m : Memory} {nextBase : Nat} {cells : List Cell}
    (h : s.Sound m nextBase cells) : s.blocks m = Cell.layOut firstBlock none cells :=
  blocksFrom_of_chain (Nat.le_refl 2) h.chain (.inl ⟨rfl, rfl⟩)

end Space

namespace Arena

/-- Each space holds the cells given for it and names the space after it. -/
def SpacesSound (m : Memory) : List Space → List (List Cell) → Prop
  | [], [] => True
  | s :: rest, cells :: more =>
    s.Sound m ((rest.head?.map (·.base)).getD 0) cells ∧ SpacesSound m rest more
  | _, _ => False

/-- The heap is sound: its spaces hold these cells and its counters are their sums. -/
structure Sound (a : Arena) (cells : List (List Cell)) : Prop where
  spaces : SpacesSound a.memory a.heap.spaces cells
  free : a.heap.freeUnits = Cell.freeUnits cells.flatten
  used : a.heap.usedUnits = Cell.usedUnits cells.flatten
  capacity : a.heap.capacityUnits
    = a.heap.spaces.foldr (fun s units => s.blockUnits + units) 0

end Arena

end PaeKernel
