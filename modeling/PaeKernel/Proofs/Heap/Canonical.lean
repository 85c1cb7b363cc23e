import Mathlib.Data.List.Sort
import PaeKernel.Proofs.Heap.Payloads

/-!
# Payloads determine blocks

Free cells are never next to each other, so each of them is the whole gap between two cells in use,
and the cells in use say where all cells are (`Cell.eq_of_inUse`). Hence a sound space has no choice
of blocks once its payloads are known, and two sound heaps with the same payloads have the same
blocks and the same counters (`Arena.Sound.alike`). What memory holds beside that does not matter:
headers of blocks long gone may differ.
-/

namespace PaeKernel

namespace Cell

variable {index : Nat} {c c' : Cell} {rest rest' cells cells' : List Cell} {u : Nat × Nat}

theorem eq_nil_of_total (hlong : Long cells) (h : total cells = 0) : cells = [] := by
  cases cells with
  | nil => rfl
  | cons c rest =>
    have hc := hlong c List.mem_cons_self
    simp only [headerUnits, total_cons] at hc h
    omega

theorem units_le_of_mem_inUse (hlong : Long cells) (h : u ∈ inUse index cells) :
    headerUnits ≤ u.2 := by
  induction cells generalizing index with
  | nil => cases h
  | cons c rest ih =>
    rw [inUse, List.mem_append] at h
    rcases h with h | h
    · split at h
      · obtain rfl := List.mem_singleton.1 h
        exact hlong c List.mem_cons_self
      · cases h
    · exact ih (fun d hd => hlong d (List.mem_cons_of_mem _ hd)) h

theorem sorted_inUse (hlong : Long cells) : (inUse index cells).Pairwise fun u v => u.1 < v.1 := by
  refine List.Pairwise.imp_of_mem ?_ pairwise_inUse
  intro u v hu _ huv
  have hunits := units_le_of_mem_inUse hlong hu
  simp only [headerUnits] at hunits
  omega

theorem Apart.tail (h : Apart (c :: rest)) : Apart rest := by
  cases rest with
  | nil => trivial
  | cons d rest => exact h.2

/-- A free cell is the last one, or the cell right after it is in use. -/
theorem inUse_after_free (h : Apart (c :: rest)) (hfree : c.used = false) (index : Nat) :
    rest = [] ∨ ∃ units more, inUse index rest = (index, units) :: more := by
  cases rest with
  | nil => exact .inl rfl
  | cons d rest =>
    have hused : d.used = true := by simpa [hfree] using h.1
    exact .inr ⟨d.units, inUse (index + d.units) rest, by rw [inUse, if_pos hused]; rfl⟩

/-- No cell in use starts in a free cell. -/
theorem inUse_ne_of_free (hlong : headerUnits ≤ c.units) (units : Nat) (more : List (Nat × Nat)) :
    inUse (index + c.units) rest ≠ (index, units) :: more := by
  intro h
  have hmem : (index, units) ∈ inUse (index + c.units) rest := h ▸ List.mem_cons_self
  have hle := (inUse_bounds hmem).1
  simp only [headerUnits] at hlong
  omega

/-- Two free cells in the same place before the same cells in use are equally long. -/
theorem units_eq_of_free (hapart : Apart (c :: rest)) (hapart' : Apart (c' :: rest'))
    (hfree : c.used = false) (hfree' : c'.used = false)
    (htotal : total (c :: rest) = total (c' :: rest'))
    (h : inUse (index + c.units) rest = inUse (index + c'.units) rest') : c.units = c'.units := by
  rw [total_cons, total_cons] at htotal
  rcases inUse_after_free hapart hfree (index + c.units) with rfl | ⟨units, more, hrest⟩ <;>
    rcases inUse_after_free hapart' hfree' (index + c'.units) with rfl | ⟨units', more', hrest'⟩
  · exact htotal
  · rw [hrest'] at h
    cases h
  · rw [hrest] at h
    cases h
  · rw [hrest, hrest'] at h
    have hstart := (Prod.mk.inj (List.cons.inj h).1).1
    omega

/-- The cells in use determine all cells of a run of known length. -/
theorem eq_of_inUse (hlong : Long cells) (hlong' : Long cells') (hapart : Apart cells)
    (hapart' : Apart cells') (htotal : total cells = total cells')
    (h : inUse index cells = inUse index cells') : cells = cells' := by
  induction cells generalizing index cells' with
  | nil => exact (eq_nil_of_total hlong' htotal.symm).symm
  | cons c rest ih =>
    cases cells' with
    | nil => exact eq_nil_of_total hlong htotal
    | cons c' rest' =>
      have hc := hlong c List.mem_cons_self
      have hc' := hlong' c' List.mem_cons_self
      -- a first cell in use is the first entry, a free one ends where the first entry starts
      have hsame : c = c' ∧ inUse (index + c.units) rest = inUse (index + c'.units) rest' := by
        obtain ⟨units, used⟩ := c
        obtain ⟨units', used'⟩ := c'
        rw [inUse, inUse] at h
        cases used <;> cases used'
        · have hunits := units_eq_of_free hapart hapart' rfl rfl htotal h
          exact ⟨Cell.ext hunits rfl, h⟩
        · exact absurd h (inUse_ne_of_free hc _ _)
        · exact absurd h.symm (inUse_ne_of_free hc' _ _)
        · obtain ⟨hhead, htail⟩ := List.cons.inj h
          obtain ⟨-, hunits⟩ := Prod.mk.inj hhead
          exact ⟨Cell.ext hunits rfl, htail⟩
      obtain ⟨rfl, hrest⟩ := hsame
      rw [total_cons, total_cons] at htotal
      rw [ih (fun d hd => hlong d (List.mem_cons_of_mem _ hd))
        (fun d hd => hlong' d (List.mem_cons_of_mem _ hd)) hapart.tail hapart'.tail (by omega) hrest]

end Cell

namespace Space

variable {s t : Space} {m m' : Memory} {nextBase nextBase' : Nat} {cells cells' : List Cell}
  {q : Payload}

theorem payloadOf_inj {i j k l : Nat} (hk : headerUnits ≤ k) (hl : headerUnits ≤ l)
    (h : s.payloadOf i k = s.payloadOf j l) : i = j ∧ k = l := by
  simp only [payloadOf, addrOf, unitSize, headerUnits, Payload.mk.injEq] at *
  omega

theorem Sound.mem_inUse (h : s.Sound m nextBase cells) (h' : s.Sound m' nextBase' cells')
    (hsub : ∀ q, q ∈ s.payloads m → q ∈ s.payloads m') {u : Nat × Nat}
    (hu : u ∈ Cell.inUse firstBlock cells) : u ∈ Cell.inUse firstBlock cells' := by
  have hmem : s.payloadOf u.1 u.2 ∈ s.payloads m := by
    rw [h.payloads_eq]
    exact List.mem_map_of_mem hu
  have hmem' := hsub _ hmem
  rw [h'.payloads_eq] at hmem'
  obtain ⟨v, hv, heq⟩ := List.mem_map.1 hmem'
  obtain ⟨hindex, hunits⟩ := payloadOf_inj (Cell.units_le_of_mem_inUse h'.long hv)
    (Cell.units_le_of_mem_inUse h.long hu) heq
  exact Prod.ext hindex hunits ▸ hv

/-- The payloads of a space determine its cells. -/
theorem Sound.cells_eq (h : s.Sound m nextBase cells) (h' : s.Sound m' nextBase' cells')
    (hsame : ∀ q, q ∈ s.payloads m ↔ q ∈ s.payloads m') : cells = cells' := by
  have hinUse : Cell.inUse firstBlock cells = Cell.inUse firstBlock cells' := by
    have : Std.Irrefl fun u v : Nat × Nat => u.1 < v.1 := ⟨fun u => Nat.lt_irrefl u.1⟩
    have : Std.Antisymm fun u v : Nat × Nat => u.1 < v.1 :=
      ⟨fun _ _ huv hvu => absurd huv (Nat.lt_asymm hvu)⟩
    refine (Cell.sorted_inUse h.long).eq_of_mem_iff (Cell.sorted_inUse h'.long) fun u => ?_
    exact ⟨h.mem_inUse h' fun q => (hsame q).1, h'.mem_inUse h fun q => (hsame q).2⟩
  exact Cell.eq_of_inUse h.long h'.long h.apart h'.apart (h.total_eq.trans h'.total_eq.symm) hinUse

theorem contains_addrOf {j : Nat} (hj : j < s.len) : s.contains (s.addrOf j) = true := by
  rw [contains, Bool.and_eq_true, decide_eq_true_eq, decide_eq_true_eq]
  simp only [endAddr, addrOf, unitSize]
  omega

theorem Sound.contains_of_payload (h : s.Sound m nextBase cells) (hq : q ∈ s.payloads m) :
    s.contains q.start = true := by
  obtain ⟨hlow, hhigh, -⟩ := h.payload_bounds hq
  have hsen := s.sentinel_add
  rw [contains, Bool.and_eq_true, decide_eq_true_eq, decide_eq_true_eq]
  simp only [endAddr, addrOf, unitSize] at *
  omega

theorem not_contains_of_apart (hap : s.toExtent.Apart t.toExtent) {address : Nat}
    (hs : s.contains address = true) : t.contains address = false := by
  rw [contains, Bool.and_eq_true, decide_eq_true_eq, decide_eq_true_eq] at hs
  rw [contains, Bool.and_eq_false_iff, decide_eq_false_iff_not, decide_eq_false_iff_not]
  simp only [Extent.Apart, endAddr, addrOf, unitSize] at *
  omega

end Space

namespace Arena

variable {a b : Arena} {m m' : Memory} {spaces : List Space} {cells cells' : List (List Cell)}
  {s t : Space} {q : Payload}

/-- Every address lies in one space at most. -/
theorem Apart.eq_of_contains (h : Apart spaces) (hs : s ∈ spaces) (ht : t ∈ spaces) {address : Nat}
    (hsAddress : s.contains address = true) (htAddress : t.contains address = true) : s = t := by
  rcases h.eq_or_apart hs ht with hst | hst
  · exact hst
  · rw [Space.not_contains_of_apart hst hsAddress] at htAddress
    exact absurd htAddress Bool.false_ne_true

/-- The payloads of a space are those that start in it. -/
theorem Sound.mem_payloads_iff (h : a.Sound cells) (hap : Apart a.heap.spaces)
    (hs : s ∈ a.heap.spaces) :
    q ∈ s.payloads a.memory ↔ q ∈ a.payloads ∧ s.contains q.start = true := by
  constructor
  · intro hq
    obtain ⟨_, _, hsound⟩ := h.spaces.exists_sound hs
    exact ⟨List.mem_flatMap.2 ⟨s, hs, hq⟩, hsound.contains_of_payload hq⟩
  · rintro ⟨hq, hcontains⟩
    obtain ⟨t, ht, hq⟩ := List.mem_flatMap.1 hq
    obtain ⟨_, _, hsound⟩ := h.spaces.exists_sound ht
    obtain rfl := hap.eq_of_contains ht hs (hsound.contains_of_payload hq) hcontains
    exact hq

theorem SpacesSound.cells_eq (h : SpacesSound m spaces cells) (h' : SpacesSound m' spaces cells')
    (hsame : ∀ s ∈ spaces, ∀ q, q ∈ s.payloads m ↔ q ∈ s.payloads m') : cells = cells' := by
  induction spaces generalizing cells cells' with
  | nil =>
    cases cells with
    | nil =>
      cases cells' with
      | nil => rfl
      | cons => exact h'.elim
    | cons => exact h.elim
  | cons s rest ih =>
    cases cells with
    | nil => exact h.elim
    | cons own more =>
      cases cells' with
      | nil => exact h'.elim
      | cons own' more' =>
        rw [h.1.cells_eq h'.1 (hsame s List.mem_cons_self),
          ih h.2 h'.2 fun t ht => hsame t (List.mem_cons_of_mem _ ht)]

theorem SpacesSound.blocks_eq (h : SpacesSound m spaces cells) (h' : SpacesSound m' spaces cells)
    (hs : s ∈ spaces) : s.blocks m = s.blocks m' := by
  obtain ⟨before, after, cb, own, ca, rfl, rfl, hlen⟩ := h.exists_split hs
  rw [Space.blocks_of_sound (h.middle hlen), Space.blocks_of_sound (h'.middle hlen)]

/-- The heaps have the same spaces, blocks and counters. -/
structure Alike (a b : Arena) : Prop where
  heap : a.heap = b.heap
  blocks : ∀ s ∈ a.heap.spaces, s.blocks a.memory = s.blocks b.memory

/-- The payloads of a sound heap determine its blocks and its counters. -/
theorem Sound.alike (h : a.Sound cells) (h' : b.Sound cells') (hap : Apart a.heap.spaces)
    (hspaces : a.heap.spaces = b.heap.spaces) (hsame : ∀ q, q ∈ a.payloads ↔ q ∈ b.payloads) :
    a.Alike b := by
  have hspaces' := h'.spaces
  rw [← hspaces] at hspaces'
  have hcells : cells = cells' := by
    refine h.spaces.cells_eq hspaces' ?_
    intro s hs q
    rw [h.mem_payloads_iff hap hs, h'.mem_payloads_iff (hspaces ▸ hap) (hspaces ▸ hs), hsame]
  subst hcells
  refine ⟨?_, fun s hs => h.spaces.blocks_eq hspaces' hs⟩
  have hfree := h.free.trans h'.free.symm
  have hused := h.used.trans h'.used.symm
  have hcapacity : a.heap.capacityUnits = b.heap.capacityUnits := by
    rw [h.capacity, h'.capacity, hspaces]
  obtain ⟨⟨_, _, _, _, _⟩, _, _⟩ := a
  obtain ⟨⟨_, _, _, _, _⟩, _, _⟩ := b
  dsimp only at hspaces hfree hused hcapacity
  subst hspaces hfree hused hcapacity
  rfl

end Arena

end PaeKernel
