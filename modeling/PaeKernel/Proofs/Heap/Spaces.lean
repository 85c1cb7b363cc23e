import PaeKernel.Proofs.Heap.Steps

/-!
# Sound spaces side by side

A change inside one space keeps the spaces apart from it sound. `Spot` is a place in a heap: a
space, one of its cells and all that lies around them; `Spot.sound_replace` carries a change of one
space over to the list of all spaces.
-/

namespace PaeKernel

/-- The two runs of words share none. -/
def Extent.Apart (e f : Extent) : Prop :=
  e.base + e.len * unitSize ≤ f.base ∨ f.base + f.len * unitSize ≤ e.base

theorem Extent.Apart.symm {e f : Extent} (h : e.Apart f) : f.Apart e := Or.symm h

namespace Space

variable {s t : Space} {m m' : Memory} {P : Nat → Prop} {nextBase units : Nat} {c : Cell}
  {pre post cells : List Cell}

theorem addrOf_div_ne_of_apart (h : s.toExtent.Apart t.toExtent) {i j : Nat} (hi : i < s.len)
    (hj : j < t.len) : s.addrOf i / 8 ≠ t.addrOf j / 8 := by
  have hs := s.aligned
  have ht := t.aligned
  rw [addrOf_div, addrOf_div]
  simp only [Extent.Apart, unitSize] at *
  omega

theorem ChangesOnly.word_eq_of_apart (h : s.ChangesOnly P m m') (hap : s.toExtent.Apart t.toExtent)
    {j : Nat} (hj : j < t.len) : t.word m' j = t.word m j :=
  h _ fun _ _ hi => Ne.symm (addrOf_div_ne_of_apart hap hi hj)

/-! ### Sound spaces by their headers -/

theorem Sound.headers (h : s.Sound m nextBase cells) : s.Headers m firstBlock none cells :=
  ((chain_iff_headers none).1 h.chain).1

theorem Sound.full (h : s.Sound m nextBase cells) :
    firstBlock + Cell.total cells = s.sentinel :=
  ((chain_iff_headers none).1 h.chain).2

theorem Sound.long (h : s.Sound m nextBase cells) : Cell.Long cells := h.headers.long

theorem Sound.total_eq (h : s.Sound m nextBase cells) : Cell.total cells = s.blockUnits := by
  have := h.full
  simp only [blockUnits]; omega

theorem Sound.payload_lt (h : s.Sound m nextBase (pre ++ c :: post)) :
    firstBlock + Cell.total pre + headerUnits < s.len := by
  have hfull := h.full
  have hsen := s.sentinel_add
  have hc : headerUnits ≤ c.units := h.long c (by simp)
  simp only [headerUnits, Cell.total_append, Cell.total_cons] at *
  omega

/-- A space stays sound with other cells if its own words outside the cells stay. -/
theorem Sound.replace (h : s.Sound m nextBase cells) {cells' : List Cell}
    (hheaders : s.Headers m' firstBlock none cells')
    (hfull : firstBlock + Cell.total cells' = s.sentinel) (hapart : Cell.Apart cells')
    (hw : ∀ j, j < firstBlock ∨ s.sentinel ≤ j → j < s.len → s.word m' j = s.word m j) :
    s.Sound m' nextBase cells' where
  length := (hw 1 (.inl (by decide)) (Nat.lt_of_lt_of_le (by decide) s.long)).trans h.length
  next := (hw 0 (.inl (by decide)) (Nat.lt_of_lt_of_le (by decide) s.long)).trans h.next
  closing := by
    have hsen := s.sentinel_add
    exact ⟨(hw _ (.inr (Nat.le_refl _)) (by omega)).trans h.closing.1,
      (hw _ (.inr (Nat.le_succ _)) (by omega)).trans h.closing.2⟩
  chain := (chain_iff_headers none).2 ⟨hheaders, hfull⟩
  apart := hapart

theorem Sound.of_agree (h : s.Sound m nextBase cells)
    (hw : ∀ j, j < s.len → s.word m' j = s.word m j) : s.Sound m' nextBase cells := by
  have hsen := s.sentinel_add
  have hfull := h.full
  exact h.replace (h.headers.of_agree fun j _ hj => hw j (by omega)) hfull h.apart
    fun j _ hj => hw j hj

theorem Sound.of_apart (h : t.Sound m nextBase cells) (hchange : s.ChangesOnly P m m')
    (hap : s.toExtent.Apart t.toExtent) : t.Sound m' nextBase cells :=
  h.of_agree fun _ hj => hchange.word_eq_of_apart hap hj

theorem Sound.take_eq (h : s.Sound m nextBase (pre ++ c :: post)) (hfree : c.used = false)
    (htwo : headerUnits ≤ units) (hfit : units ≤ c.units) : ∃ m',
    s.take (firstBlock + Cell.total pre) units m = (.ok (Cell.granted c.units units), m')
      ∧ s.Sound m' nextBase (pre ++ (Cell.carve c.units units ++ post))
      ∧ s.ChangesOnly (Cell.HeaderUnit (pre ++ (Cell.carve c.units units ++ post))) m m' := by
  obtain ⟨m', hrun, hheaders, hchange⟩ := Space.take_eq hfree htwo hfit h.headers h.full
  have hfull : firstBlock + Cell.total (pre ++ (Cell.carve c.units units ++ post)) = s.sentinel := by
    rw [← h.full]
    simp only [Cell.total_append, Cell.total_cons, Cell.total_carve hfit]
  refine ⟨m', hrun, h.replace hheaders hfull (Cell.apart_carve h.apart hfree units) ?_, hchange⟩
  intro j hj _
  refine hchange.word_eq ?_
  intro hunit
  have := hunit.bounds hheaders.long
  omega

theorem Sound.release_eq (h : s.Sound m nextBase (pre ++ c :: post)) (hused : c.used = true) :
    ∃ start m', s.release (firstBlock + Cell.total pre) m = (.ok (c.units, start), m')
      ∧ start + 1 < s.len
      ∧ s.Sound m' nextBase (Cell.merge pre c.units post)
      ∧ s.ChangesOnly (Cell.HeaderUnit (pre ++ c :: post)) m m' := by
  obtain ⟨start, m', hrun, hstart, hheaders, hchange⟩ := Space.release_eq hused h.headers h.full
  have hfull : firstBlock + Cell.total (Cell.merge pre c.units post) = s.sentinel := by
    rw [← h.full, Cell.total_merge]
    simp only [Cell.total_append, Cell.total_cons, Nat.add_assoc]
  refine ⟨start, m', hrun, hstart,
    h.replace hheaders hfull (Cell.apart_merge h.apart c.units) ?_, hchange⟩
  intro j hj _
  refine hchange.word_eq ?_
  intro hunit
  have hb := hunit.bounds h.long
  have := h.full
  omega

end Space

/-! ### A place in a heap -/

/-- A space, one of its cells and everything around them. -/
structure Spot where
  before : List Space
  space : Space
  after : List Space
  cellsBefore : List (List Cell)
  pre : List Cell
  cell : Cell
  post : List Cell
  cellsAfter : List (List Cell)
  length_eq : before.length = cellsBefore.length

namespace Spot

/-- All spaces. -/
def spaces (p : Spot) : List Space := p.before ++ p.space :: p.after

/-- The cells of all spaces, with these in the space of the spot. -/
def replace (p : Spot) (own : List Cell) : List (List Cell) := p.cellsBefore ++ own :: p.cellsAfter

/-- The cells of all spaces. -/
def cells (p : Spot) : List (List Cell) := p.replace (p.pre ++ p.cell :: p.post)

/-- The cell as a block. -/
def block (p : Spot) : Block :=
  ⟨firstBlock + Cell.total p.pre, p.cell.units, p.cell.used, Cell.lastIndex firstBlock none p.pre⟩

/-- The address of the payload of the cell. -/
def address (p : Spot) : Nat := p.space.addrOf (p.block.index + headerUnits)

/-- The address of the space after this one, zero if there is none. -/
def nextBase (p : Spot) : Nat := (p.after.head?.map (·.base)).getD 0

theorem space_mem (p : Spot) : p.space ∈ p.spaces := by
  simp [spaces]

end Spot

namespace Arena

variable {m m' : Memory} {spaces before after : List Space} {cells cb ca : List (List Cell)}
  {s : Space} {own own' : List Cell} {P : Nat → Prop} {p : Spot}

/-- No two spaces of the heap share a word. -/
def Apart (spaces : List Space) : Prop := (spaces.map Space.toExtent).Pairwise Extent.Apart

theorem SpacesSound.exists_split (h : SpacesSound m spaces cells) (hs : s ∈ spaces) :
    ∃ before after cb own ca, spaces = before ++ s :: after ∧ cells = cb ++ own :: ca
      ∧ before.length = cb.length := by
  induction spaces generalizing cells with
  | nil => cases hs
  | cons t rest ih =>
    cases cells with
    | nil => exact h.elim
    | cons own more =>
      rcases List.mem_cons.1 hs with rfl | hs
      · exact ⟨[], rest, [], own, more, rfl, rfl, rfl⟩
      · obtain ⟨before, after, cb, own', ca, rfl, rfl, hlen⟩ := ih h.2 hs
        exact ⟨t :: before, after, own :: cb, own', ca, rfl, rfl, by simp [hlen]⟩

theorem SpacesSound.middle (h : SpacesSound m (before ++ s :: after) (cb ++ own :: ca))
    (hlen : before.length = cb.length) :
    s.Sound m ((after.head?.map (·.base)).getD 0) own := by
  induction before generalizing cb with
  | nil =>
    obtain rfl : cb = [] := List.eq_nil_of_length_eq_zero hlen.symm
    exact h.1
  | cons t before ih =>
    cases cb with
    | nil => cases hlen
    | cons c cb => exact ih h.2 (by simpa using hlen)

theorem SpacesSound.of_forall (h : SpacesSound m spaces cells)
    (hkeep : ∀ t ∈ spaces, ∀ nextBase c, t.Sound m nextBase c → t.Sound m' nextBase c) :
    SpacesSound m' spaces cells := by
  induction spaces generalizing cells with
  | nil => cases cells <;> exact h
  | cons t rest ih =>
    cases cells with
    | nil => exact h.elim
    | cons c more =>
      exact ⟨hkeep t List.mem_cons_self _ _ h.1,
        ih h.2 fun u hu => hkeep u (List.mem_cons_of_mem _ hu)⟩

theorem SpacesSound.replace (h : SpacesSound m (before ++ s :: after) (cb ++ own :: ca))
    (hlen : before.length = cb.length)
    (hkeep : ∀ t ∈ before ++ after, ∀ nextBase c, t.Sound m nextBase c → t.Sound m' nextBase c)
    (hs : s.Sound m' ((after.head?.map (·.base)).getD 0) own') :
    SpacesSound m' (before ++ s :: after) (cb ++ own' :: ca) := by
  induction before generalizing cb with
  | nil =>
    obtain rfl : cb = [] := List.eq_nil_of_length_eq_zero hlen.symm
    exact ⟨hs, SpacesSound.of_forall h.2 hkeep⟩
  | cons t before ih =>
    cases cb with
    | nil => cases hlen
    | cons c cb =>
      exact ⟨hkeep t (by simp) _ _ h.1, ih h.2 (by simpa using hlen) fun u hu =>
        hkeep u (List.mem_cons_of_mem _ hu)⟩

/-- A block of a sound heap is a cell at some place. -/
theorem SpacesSound.exists_spot (h : SpacesSound m spaces cells) (hs : s ∈ spaces) {b : Block}
    (hb : b ∈ s.blocks m) :
    ∃ p : Spot, p.spaces = spaces ∧ p.cells = cells ∧ p.space = s ∧ p.block = b := by
  obtain ⟨before, after, cb, own, ca, rfl, rfl, hlen⟩ := h.exists_split hs
  rw [Space.blocks_of_sound (h.middle hlen)] at hb
  obtain ⟨pre, c, post, rfl, rfl⟩ := Cell.mem_layOut.1 hb
  exact ⟨⟨before, s, after, cb, pre, c, post, ca, hlen⟩, rfl, rfl, rfl, rfl⟩

theorem SpacesSound.spot (h : SpacesSound m p.spaces p.cells) :
    p.space.Sound m p.nextBase (p.pre ++ p.cell :: p.post) :=
  h.middle p.length_eq

/-- Spaces apart from the one at the spot stay sound when only words of that one change. -/
theorem SpacesSound.replace_spot (h : SpacesSound m p.spaces p.cells) (hap : Apart p.spaces)
    (hchange : p.space.ChangesOnly P m m') (hown : p.space.Sound m' p.nextBase own) :
    SpacesSound m' p.spaces (p.replace own) := by
  refine SpacesSound.replace h p.length_eq (fun t ht nextBase c hc => hc.of_apart hchange ?_) hown
  simp only [Apart, Spot.spaces, List.map_append, List.map_cons, List.pairwise_append,
    List.pairwise_cons, List.mem_map, List.mem_cons] at hap
  obtain ⟨-, ⟨hafter, -⟩, hbefore⟩ := hap
  rcases List.mem_append.1 ht with ht | ht
  · exact (hbefore _ ⟨t, ht, rfl⟩ _ (.inl rfl)).symm
  · exact hafter _ ⟨t, ht, rfl⟩

end Arena

end PaeKernel
