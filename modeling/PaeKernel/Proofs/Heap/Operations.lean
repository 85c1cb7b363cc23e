import PaeKernel.Heap.Allocation
import PaeKernel.Proofs.Heap.Spaces

/-!
# Requests and releases on a sound heap

On a sound heap of spaces apart from each other `malloc` and `free` never panic. Either nothing
changes but the log, or one space changes as its cells do, and the heap is sound again.
-/

namespace PaeKernel

namespace Spot

theorem flatten_replace (p : Spot) (own : List Cell) :
    (p.replace own).flatten = p.cellsBefore.flatten ++ (own ++ p.cellsAfter.flatten) := by
  simp [replace]

theorem freeUnits_replace (p : Spot) (own : List Cell) : Cell.freeUnits (p.replace own).flatten
    = Cell.freeUnits p.cellsBefore.flatten + (Cell.freeUnits own
      + Cell.freeUnits p.cellsAfter.flatten) := by
  rw [flatten_replace, Cell.freeUnits_append, Cell.freeUnits_append]

theorem usedUnits_replace (p : Spot) (own : List Cell) : Cell.usedUnits (p.replace own).flatten
    = Cell.usedUnits p.cellsBefore.flatten + (Cell.usedUnits own
      + Cell.usedUnits p.cellsAfter.flatten) := by
  rw [flatten_replace, Cell.usedUnits_append, Cell.usedUnits_append]

theorem freeUnits_carve (p : Spot) (units : Nat) :
    Cell.freeUnits (p.replace (p.pre ++ (Cell.carve p.cell.units units ++ p.post))).flatten
      = Cell.freeUnits p.cellsBefore.flatten + (Cell.freeUnits p.pre
        + (p.cell.units - Cell.granted p.cell.units units + Cell.freeUnits p.post)
        + Cell.freeUnits p.cellsAfter.flatten) := by
  rw [freeUnits_replace, Cell.freeUnits_append, Cell.freeUnits_append, Cell.freeUnits_carve]

theorem usedUnits_carve (p : Spot) (units : Nat) :
    Cell.usedUnits (p.replace (p.pre ++ (Cell.carve p.cell.units units ++ p.post))).flatten
      = Cell.usedUnits p.cellsBefore.flatten + (Cell.usedUnits p.pre
        + (Cell.granted p.cell.units units + Cell.usedUnits p.post)
        + Cell.usedUnits p.cellsAfter.flatten) := by
  rw [usedUnits_replace, Cell.usedUnits_append, Cell.usedUnits_append, Cell.usedUnits_carve]

end Spot

/-- The heap with other counters of free and of used units. -/
def Heap.recount (h : Heap) (free used : Nat) : Heap :=
  { h with freeUnits := free, usedUnits := used }

namespace Arena

variable {a : Arena} {m : Memory} {spaces : List Space} {cells : List (List Cell)} {p : Spot}
  {s : Space} {α : Type} {size units : Nat}

/-! ### Steps of the operations -/

theorem onMemory_of_ok {x : Exec Memory α} {v : α} (h : x a.memory = (.ok v, m)) :
    onMemory x a = (.ok v, { a with memory := m }) := by
  simp [onMemory, Exec.zoom, h]

theorem record_apply (level : Level) (target message : String) (a : Arena) :
    record level target message a
      = (.ok (), { a with log := a.log ++ [⟨level, target, message⟩] }) := rfl

theorem countTaken_of_le {granted : Nat} (hfree : granted ≤ a.heap.freeUnits)
    (hused : a.heap.usedUnits + granted < wordLimit) :
    countTaken granted a = (.ok (), { a with
      heap := a.heap.recount (a.heap.freeUnits - granted) (a.heap.usedUnits + granted) }) := by
  simp [countTaken, Exec.bind_apply, subWord_of_le hfree, addWord_of_lt hused, Heap.recount]

theorem countFreed_of_le {freed : Nat} (hfree : a.heap.freeUnits + freed < wordLimit)
    (hused : freed ≤ a.heap.usedUnits) :
    countFreed freed a = (.ok (), { a with
      heap := a.heap.recount (a.heap.freeUnits + freed) (a.heap.usedUnits - freed) }) := by
  simp [countFreed, Exec.bind_apply, subWord_of_le hused, addWord_of_lt hfree, Heap.recount]

/-! ### The counters of a sound heap -/

theorem SpacesSound.total_eq (h : SpacesSound m spaces cells) :
    Cell.total cells.flatten = spaces.foldr (fun s units => s.blockUnits + units) 0 := by
  induction spaces generalizing cells with
  | nil =>
    cases cells with
    | nil => rfl
    | cons c more => exact h.elim
  | cons s rest ih =>
    cases cells with
    | nil => exact h.elim
    | cons c more =>
      rw [Cell.total_flatten_cons, h.1.total_eq, ih h.2]
      rfl

theorem foldr_blockUnits_le (spaces : List Space) :
    spaces.foldr (fun s units => s.blockUnits + units) 0
      ≤ spaces.length * (0x2000000000000000 - 1) := by
  induction spaces with
  | nil => exact Nat.le_refl 0
  | cons s rest ih =>
    have hlen := s.len_lt
    have hsen := s.sentinel_add
    have hunits : s.blockUnits ≤ 0x2000000000000000 - 1 := by
      simp only [Space.blockUnits]; omega
    rw [List.foldr_cons, List.length_cons, Nat.succ_mul]
    omega

theorem foldr_blockUnits_lt (h : Heap) :
    h.spaces.foldr (fun s units => s.blockUnits + units) 0 < wordLimit := by
  have hle := foldr_blockUnits_le h.spaces
  have hfew := h.few
  simp only [maxSpaces, wordLimit] at *
  omega

theorem Sound.balance (h : a.Sound cells) :
    a.heap.freeUnits + a.heap.usedUnits = a.heap.capacityUnits := by
  rw [h.free, h.used, h.capacity, Cell.free_add_used, h.spaces.total_eq]

theorem Sound.capacity_lt (h : a.Sound cells) : a.heap.capacityUnits < wordLimit := by
  rw [h.capacity]
  exact foldr_blockUnits_lt a.heap

theorem Sound.freeUnits_spot (h : a.Sound p.cells) : a.heap.freeUnits
    = Cell.freeUnits p.cellsBefore.flatten + (Cell.freeUnits p.pre
      + ((if p.cell.used then 0 else p.cell.units) + Cell.freeUnits p.post)
      + Cell.freeUnits p.cellsAfter.flatten) := by
  rw [h.free, Spot.cells, Spot.freeUnits_replace, Cell.freeUnits_append, Cell.freeUnits]

theorem Sound.usedUnits_spot (h : a.Sound p.cells) : a.heap.usedUnits
    = Cell.usedUnits p.cellsBefore.flatten + (Cell.usedUnits p.pre
      + ((if p.cell.used then p.cell.units else 0) + Cell.usedUnits p.post)
      + Cell.usedUnits p.cellsAfter.flatten) := by
  rw [h.used, Spot.cells, Spot.usedUnits_replace, Cell.usedUnits_append, Cell.usedUnits]

/-- One space got other cells, and the counters went along. -/
theorem Sound.replace_spot (h : a.Sound p.cells) (hap : Apart a.heap.spaces)
    (hspaces : p.spaces = a.heap.spaces) {P : Nat → Prop} {own : List Cell}
    (hchange : p.space.ChangesOnly P a.memory m) (hown : p.space.Sound m p.nextBase own)
    {free used : Nat} (hfree : free = Cell.freeUnits (p.replace own).flatten)
    (hused : used = Cell.usedUnits (p.replace own).flatten) (log : List Record) :
    Sound ⟨a.heap.recount free used, m, log⟩ (p.replace own) := by
  refine ⟨?_, hfree, hused, h.capacity⟩
  show SpacesSound m a.heap.spaces _
  rw [← hspaces] at hap ⊢
  exact SpacesSound.replace_spot (hspaces ▸ h.spaces) hap hchange hown

/-! ### What the look-ups find -/

theorem Sound.findFree_spot (h : a.Sound cells) {index : Nat}
    (hfind : a.findFree units = some (s, index)) :
    ∃ p : Spot, p.spaces = a.heap.spaces ∧ p.cells = cells ∧ p.space = s ∧ p.block.index = index
      ∧ p.cell.used = false ∧ units ≤ p.cell.units := by
  obtain ⟨t, ht, hfound⟩ := List.exists_of_findSome?_eq_some hfind
  obtain ⟨i, hi, heq⟩ := Option.map_eq_some_iff.1 hfound
  obtain ⟨rfl, rfl⟩ := Prod.mk.inj heq
  obtain ⟨b, hb, rfl⟩ := Option.map_eq_some_iff.1 hi
  obtain ⟨p, hspaces, hcells, hspace, rfl⟩ := h.spaces.exists_spot ht (List.mem_of_find?_eq_some hb)
  have hfits := List.find?_some hb
  simp only [Block.fits, Spot.block, Bool.and_eq_true, Bool.not_eq_true'] at hfits
  exact ⟨p, hspaces, hcells, hspace, rfl, hfits.1, of_decide_eq_true hfits.2⟩

theorem Sound.blockForPayload_spot (h : a.Sound cells) {address : Nat} {b : Block}
    (hfind : a.blockForPayload address = some (s, b)) :
    ∃ p : Spot, p.spaces = a.heap.spaces ∧ p.cells = cells ∧ p.space = s ∧ p.block = b
      ∧ p.address = address := by
  simp only [blockForPayload, Space.blockForPayload, Option.bind_eq_bind, Option.bind_eq_some_iff,
    Option.pure_def, Option.some.injEq, Prod.mk.injEq] at hfind
  obtain ⟨t, ht, c, ⟨i, hi, hfound⟩, rfl, rfl⟩ := hfind
  split at hfound
  · rename_i htwo
    obtain ⟨p, hspaces, hcells, rfl, rfl⟩ := h.spaces.exists_spot (List.mem_of_find?_eq_some ht)
      (List.mem_of_find?_eq_some hfound)
    have hindex := List.find?_some hfound
    simp only [beq_iff_eq] at hindex
    refine ⟨p, hspaces, hcells, rfl, rfl, ?_⟩
    rw [Spot.address, hindex, Nat.sub_add_cancel htwo]
    exact (Space.addrOf_indexOf hi).1
  · cases hfound

/-! ### Requests -/

/-- The arena after a request served at the spot. -/
structure Served (a a' : Arena) (p : Spot) (units : Nat) : Prop where
  spaces : p.spaces = a.heap.spaces
  unused : p.cell.used = false
  fits : units ≤ p.cell.units
  kept : a'.heap.spaces = a.heap.spaces
  sound : a'.Sound (p.replace (p.pre ++ (Cell.carve p.cell.units units ++ p.post)))
  touched : p.space.ChangesOnly
    (Cell.HeaderUnit (p.pre ++ (Cell.carve p.cell.units units ++ p.post))) a.memory a'.memory

theorem malloc_served (h : a.Sound p.cells) (hap : Apart a.heap.spaces)
    (hspaces : p.spaces = a.heap.spaces) (hunits : unitsFor size = some units)
    (hfind : a.findFree units = some (p.space, p.block.index)) (hfree : p.cell.used = false)
    (hfit : units ≤ p.cell.units) :
    ∃ a', malloc size a = (.ok (some p.address), a') ∧ Served a a' p units := by
  have hspot : p.space.Sound a.memory p.nextBase (p.pre ++ p.cell :: p.post) :=
    SpacesSound.spot (hspaces ▸ h.spaces)
  have htwo : headerUnits ≤ units := by
    obtain ⟨rfl, -⟩ := unitsFor_eq_some_iff.1 hunits
    exact Nat.le_add_left _ _
  obtain ⟨m, hrun, hsound, hchange⟩ := hspot.take_eq hfree htwo hfit
  have hfreeSum := h.freeUnits_spot
  have husedSum := h.usedUnits_spot
  have hgranted := Cell.granted_le hfit
  have hbalance := h.balance
  have hcapacity := h.capacity_lt
  rw [if_neg (hfree ▸ Bool.false_ne_true)] at hfreeSum husedSum
  have hpayload : p.block.index + headerUnits < p.space.len := hspot.payload_lt
  change p.space.take p.block.index units a.memory = _ at hrun
  rw [malloc, hunits]
  dsimp only
  rw [Exec.bind_of_ok (Exec.view_apply _ a), hfind]
  dsimp only
  rw [Exec.bind_of_ok (onMemory_of_ok hrun),
    Exec.bind_of_ok (countTaken_of_le (by dsimp only; omega) (by dsimp only; omega)),
    Exec.bind_of_ok (Exec.view_apply _ _), Exec.bind_of_ok (Exec.view_apply _ _),
    Exec.bind_of_ok (record_apply _ _ _ _),
    Exec.bind_of_ok (onMemory_of_ok (Space.payload_of_lt hpayload _))]
  refine ⟨_, rfl, hspaces, hfree, hfit, rfl, ?_, hchange⟩
  refine h.replace_spot hap hspaces hchange hsound ?_ ?_ _
  · rw [Spot.freeUnits_carve]
    dsimp only
    omega
  · rw [Spot.usedUnits_carve]
    dsimp only
    omega

/-- A request that no block fits changes nothing but the log. -/
theorem malloc_unserved (hunits : unitsFor size = some units) (hfind : a.findFree units = none) :
    ∃ log, malloc size a = (.ok none, { a with log }) := by
  refine ⟨a.log ++ [⟨.debug, heapTarget,
    s!"heap: malloc({size}) failed, {a.heap.freeUnits} units free"⟩], ?_⟩
  rw [malloc, hunits]
  dsimp only
  rw [Exec.bind_of_ok (Exec.view_apply _ a), hfind]
  dsimp only
  rw [Exec.bind_of_ok (Exec.view_apply _ a), Exec.bind_of_ok (record_apply _ _ _ a)]
  rfl

theorem malloc_eq (h : a.Sound cells) (hap : Apart a.heap.spaces) (size : Nat) :
    (∃ log, malloc size a = (.ok none, { a with log }))
      ∨ ∃ units p a', unitsFor size = some units ∧ p.cells = cells
        ∧ malloc size a = (.ok (some p.address), a') ∧ Served a a' p units := by
  cases hunits : unitsFor size with
  | none => exact .inl ⟨a.log, by rw [malloc, hunits]; rfl⟩
  | some units =>
    cases hfind : a.findFree units with
    | none => exact .inl (malloc_unserved hunits hfind)
    | some found =>
      obtain ⟨s, index⟩ := found
      obtain ⟨p, hspaces, rfl, rfl, rfl, hfree, hfit⟩ := h.findFree_spot hfind
      obtain ⟨a', hrun, hserved⟩ := malloc_served h hap hspaces hunits hfind hfree hfit
      exact .inr ⟨units, p, a', rfl, rfl, hrun, hserved⟩

/-! ### Releases -/

/-- The arena after the payload at the spot was taken back. -/
structure Released (a a' : Arena) (p : Spot) : Prop where
  spaces : p.spaces = a.heap.spaces
  used : p.cell.used = true
  kept : a'.heap.spaces = a.heap.spaces
  sound : a'.Sound (p.replace (Cell.merge p.pre p.cell.units p.post))
  touched : p.space.ChangesOnly (Cell.HeaderUnit (p.pre ++ p.cell :: p.post)) a.memory a'.memory

theorem free_released (h : a.Sound p.cells) (hap : Apart a.heap.spaces)
    (hspaces : p.spaces = a.heap.spaces)
    (hfind : a.blockForPayload p.address = some (p.space, p.block)) (hused : p.cell.used = true) :
    ∃ a', free p.address a = (.ok (.ok ()), a') ∧ Released a a' p := by
  have hspot : p.space.Sound a.memory p.nextBase (p.pre ++ p.cell :: p.post) :=
    SpacesSound.spot (hspaces ▸ h.spaces)
  obtain ⟨start, m, hrun, hstart, hsound, hchange⟩ := hspot.release_eq hused
  have hfreeSum := h.freeUnits_spot
  have husedSum := h.usedUnits_spot
  have hbalance := h.balance
  have hcapacity := h.capacity_lt
  rw [if_pos hused] at hfreeSum husedSum
  change p.space.release p.block.index a.memory = _ at hrun
  rw [free, Exec.bind_of_ok (Exec.view_apply _ a), hfind]
  dsimp only
  rw [if_pos (show p.block.used = true from hused), Exec.bind_of_ok (onMemory_of_ok hrun)]
  dsimp only
  rw [Exec.bind_of_ok (countFreed_of_le (by dsimp only; omega) (by dsimp only; omega)),
    Exec.bind_of_ok (onMemory_of_ok (Space.size_of_lt hstart _)),
    Exec.bind_of_ok (Exec.view_apply _ _), Exec.bind_of_ok (Exec.view_apply _ _),
    Exec.bind_of_ok (record_apply _ _ _ _)]
  refine ⟨_, rfl, hspaces, hused, rfl, ?_, hchange⟩
  refine h.replace_spot hap hspaces hchange hsound ?_ ?_ _
  · rw [Spot.freeUnits_replace, Cell.freeUnits_merge]
    dsimp only
    omega
  · rw [Spot.usedUnits_replace, Cell.usedUnits_merge]
    dsimp only
    omega

/-- An address that belongs to no block is refused, and nothing changes. -/
theorem free_foreign {address : Nat} (hfind : a.blockForPayload address = none) :
    free address a = (.ok (.error (.foreignPointer address)), a) := by
  rw [free, Exec.bind_of_ok (Exec.view_apply _ a), hfind]
  rfl

/-- The address of a free block is refused, and nothing changes. -/
theorem free_double {address : Nat} {b : Block} (hfind : a.blockForPayload address = some (s, b))
    (hfree : b.used = false) : free address a = (.ok (.error (.doubleFree address)), a) := by
  rw [free, Exec.bind_of_ok (Exec.view_apply _ a), hfind]
  dsimp only
  rw [if_neg (by simp [hfree])]
  rfl

theorem free_eq (h : a.Sound cells) (hap : Apart a.heap.spaces) (address : Nat) :
    (∃ err, free address a = (.ok (.error err), a))
      ∨ ∃ p a', p.cells = cells ∧ p.address = address ∧ free address a = (.ok (.ok ()), a')
        ∧ Released a a' p := by
  cases hfind : a.blockForPayload address with
  | none => exact .inl ⟨_, free_foreign hfind⟩
  | some found =>
    obtain ⟨s, b⟩ := found
    obtain ⟨p, hspaces, rfl, rfl, rfl, rfl⟩ := h.blockForPayload_spot hfind
    cases hused : p.cell.used with
    | true =>
      obtain ⟨a', hrun, hreleased⟩ := free_released h hap hspaces hfind hused
      exact .inr ⟨p, a', rfl, rfl, hrun, hreleased⟩
    | false => exact .inl ⟨_, free_double hfind hused⟩

end Arena

end PaeKernel
